import Mathlib.Data.List.Perm.Basic
import Mathlib.Data.String.Basic
import Kerbridge.DirectorySource
import Kerbridge.Reachability

/-!
# The closure of a snapshot

What the walk from the roots selects, and what the narrowing keeps of a reading:
the groups reached through nested groups of the reading, their direct edges to
what is kept, and the accounts they hold. Nothing in it depends on an order but the
order in which a group's members are listed.
-/

namespace Kerbridge.DirectorySource

open Std (ExtTreeMap)
open UnicodeText SamName Reachability

/-- A group of the reading is directly nested in another. -/
def Nested (groups : ExtTreeMap Subject DesiredGroup)
    (edges : ExtTreeMap Subject (List Membership)) (a b : Subject) : Prop :=
  Membership.group b ∈ edges[a]?.getD [] ∧ b ∈ groups

/-- The worklist pushes the groups its group names as members. -/
theorem mem_groupEdges {edges : ExtTreeMap Subject (List Membership)} {a b : Subject} :
    b ∈ groupEdges edges a ↔ Membership.group b ∈ edges[a]?.getD [] := by
  unfold groupEdges
  rw [List.mem_filterMap]
  constructor
  · intro h
    obtain ⟨m, hm, heq⟩ := h
    cases m with
    | user sub => cases heq
    | group sub =>
      cases heq
      exact hm
  · intro h
    exact ⟨.group b, h, rfl⟩

/-- The walk selects what is reached from the groups on its list and those it has
selected, provided it still has the members of these to visit. -/
theorem mem_selectClosure {groups : ExtTreeMap Subject DesiredGroup}
    {edges : ExtTreeMap Subject (List Membership)} {selected todo : List Subject}
    (hselected : ∀ a ∈ selected, a ∈ groups)
    (hfrontier : ∀ a ∈ selected, ∀ b, Nested groups edges a b → b ∈ selected ∨ b ∈ todo) :
    {x | x ∈ selectClosure groups edges selected todo} =
      Reached (Nested groups edges) {x | x ∈ groups ∧ (x ∈ selected ∨ x ∈ todo)} := by
  fun_induction selectClosure groups edges selected todo with
  | case1 selected =>
    have hstarts : {x | x ∈ groups ∧ (x ∈ selected ∨ x ∈ ([] : List Subject))} =
        {x | x ∈ selected} := by
      ext x
      simp only [List.not_mem_nil, or_false, Set.mem_ofPred_eq, and_iff_right_iff_imp]
      exact hselected x
    rw [hstarts, reached_of_closed]
    intro a ha b hab
    simpa using hfrontier a ha b hab
  | case2 selected gid todo hskip ih =>
    have hstarts : {x | x ∈ groups ∧ (x ∈ selected ∨ x ∈ gid :: todo)} =
        {x | x ∈ groups ∧ (x ∈ selected ∨ x ∈ todo)} := by
      ext x
      simp only [List.mem_cons, Set.mem_ofPred_eq]
      constructor
      · intro h
        obtain ⟨hx, hmem⟩ := h
        refine ⟨hx, ?_⟩
        rcases hmem with hsel | rfl | htodo
        · exact Or.inl hsel
        · rcases hskip with hsel | habsent
          · exact Or.inl hsel
          · exact absurd hx habsent
        · exact Or.inr htodo
      · intro h
        exact ⟨h.1, h.2.imp id Or.inr⟩
    rw [hstarts]
    refine ih hselected ?_
    intro a ha b hab
    rcases hfrontier a ha b hab with hsel | hmem
    · exact Or.inl hsel
    · rcases List.mem_cons.mp hmem with rfl | htodo
      · rcases hskip with hsel | habsent
        · exact Or.inl hsel
        · exact absurd hab.2 habsent
      · exact Or.inr htodo
  | case3 selected gid todo hnew ih =>
    obtain ⟨_, hgid⟩ := not_or.mp hnew
    have hgid : gid ∈ groups := not_not.mp hgid
    -- The new starts are the old ones and what the group reaches in one step.
    have hstarts : {x | x ∈ groups ∧
          (x ∈ gid :: selected ∨ x ∈ (groupEdges edges gid).reverse ++ todo)} =
        {x | x ∈ groups ∧ (x ∈ selected ∨ x ∈ gid :: todo)} ∪
          {x | Nested groups edges gid x} := by
      ext x
      simp only [List.mem_cons, List.mem_append, List.mem_reverse, mem_groupEdges,
        Set.mem_ofPred_eq, Set.mem_union, Nested]
      tauto
    rw [ih, hstarts, reached_union]
    · intro x hx
      have hstart : gid ∈ {x | x ∈ groups ∧ (x ∈ selected ∨ x ∈ gid :: todo)} :=
        ⟨hgid, Or.inr List.mem_cons_self⟩
      exact reached_step (subset_reached hstart) hx
    · intro a ha
      rcases List.mem_cons.mp ha with rfl | ha
      · exact hgid
      · exact hselected a ha
    · intro a ha b hab
      rcases List.mem_cons.mp ha with rfl | ha
      · refine Or.inr (List.mem_append_left _ ?_)
        rw [List.mem_reverse, mem_groupEdges]
        exact hab.1
      · rcases hfrontier a ha b hab with hsel | hmem
        · exact Or.inl (List.mem_cons_of_mem _ hsel)
        · rcases List.mem_cons.mp hmem with rfl | htodo
          · exact Or.inl List.mem_cons_self
          · exact Or.inr (List.mem_append_right _ htodo)

/-- The walk selects no group twice. -/
theorem nodup_selectClosure {groups : ExtTreeMap Subject DesiredGroup}
    {edges : ExtTreeMap Subject (List Membership)} {selected todo : List Subject}
    (h : selected.Nodup) : (selectClosure groups edges selected todo).Nodup := by
  fun_induction selectClosure groups edges selected todo with
  | case1 selected => exact h
  | case2 selected gid todo hskip ih => exact ih h
  | case3 selected gid todo hnew ih => exact ih (List.nodup_cons.mpr ⟨(not_or.mp hnew).1, h⟩)

section Tables

variable [UnicodeTables]

/-- The edges of a group, in the order the reading lists them. -/
def Enumeration.edges (read : Enumeration) (gid : Subject) : List Membership :=
  read.membership[gid]?.getD []

/-- What an edge leaves as a member: an accepted account, or a selected group. -/
def keptEdge (read : Enumeration) (selected : List Subject) : Membership → Option Subject
  | .user sub => if sub ∈ read.users then some sub else none
  | .group sub => if sub ∈ selected then some sub else none

/-- The accepted account an edge holds. -/
def heldEdge (read : Enumeration) : Membership → Option Subject
  | .user sub => if sub ∈ read.users then some sub else none
  | .group _ => none

/-- The sentence about a held account that was turned away. -/
def Refusal.sentence (r : Refusal) : String :=
  "user " ++ r.who ++ " is held by a selected group but gets no account: " ++ r.why

/-- The refusal an edge brings to light. -/
def refusedEdge (read : Enumeration) : Membership → Option String
  | .user sub => if sub ∈ read.users then none else read.refused[sub]?.map Refusal.sentence
  | .group _ => none

/-- What an edge of a selected group contributes. -/
theorem narrowEdge_eq (read : Enumeration) (selected mm : List Subject) (n : Narrowing)
    (m : Membership) : narrowEdge read selected mm n m =
      (mm ++ (keptEdge read selected m).toList,
        { n with
          held := (heldEdge read m).toList ++ n.held
          refused := n.refused ++ (refusedEdge read m).toList }) := by
  cases m with
  | user sub =>
    by_cases hsub : sub ∈ read.users
    · simp [narrowEdge, keptEdge, heldEdge, refusedEdge, hsub]
    · cases hr : read.refused[sub]? with
      | none => simp [narrowEdge, keptEdge, heldEdge, refusedEdge, hsub, hr]
      | some r => simp [narrowEdge, keptEdge, heldEdge, refusedEdge, hsub, hr, Refusal.sentence]
  | group sub =>
    by_cases hsub : sub ∈ selected
    · simp [narrowEdge, keptEdge, heldEdge, refusedEdge, hsub]
    · simp [narrowEdge, keptEdge, heldEdge, refusedEdge, hsub]

omit [UnicodeTables] in
/-- What a filtering map keeps of a list, one element at a time. -/
theorem filterMap_cons_toList {α β : Type} (f : α → Option β) (a : α) (l : List α) :
    (a :: l).filterMap f = (f a).toList ++ l.filterMap f := by
  cases h : f a with
  | none => simp [h]
  | some b => simp [h]

omit [UnicodeTables] in
/-- A filtering map that only selects is a selection, mapped. -/
theorem filterMap_eq_map_filter {α β : Type} {f : α → Option β} {p : α → Bool} {g : α → β}
    (h : ∀ a, f a = if p a then some (g a) else none) (l : List α) :
    l.filterMap f = (l.filter p).map g := by
  induction l with
  | nil => rfl
  | cons a l ih =>
    rw [filterMap_cons_toList, h, ih]
    by_cases hp : p a = true
    · simp [hp]
    · simp [hp]

omit [UnicodeTables] in
/-- One element at most reads the same backwards. -/
theorem reverse_toList {α : Type} (o : Option α) : o.toList.reverse = o.toList := by
  cases o with
  | none => rfl
  | some a => rfl

/-- What the edges of a selected group contribute. -/
theorem foldl_narrowEdge (read : Enumeration) (selected : List Subject) (edges : List Membership)
    (mm : List Subject) (n : Narrowing) :
    edges.foldl (fun acc m => narrowEdge read selected acc.1 acc.2 m) (mm, n) =
      (mm ++ edges.filterMap (keptEdge read selected),
        { n with
          held := (edges.filterMap (heldEdge read)).reverse ++ n.held
          refused := n.refused ++ edges.filterMap (refusedEdge read) }) := by
  induction edges generalizing mm n with
  | nil => simp
  | cons m edges ih =>
    rw [List.foldl_cons, narrowEdge_eq, ih]
    simp only [filterMap_cons_toList, List.append_assoc, List.reverse_append, reverse_toList]

/-- What a selected group contributes. -/
theorem narrowGroup_eq (read : Enumeration) (selected : List Subject) (n : Narrowing)
    (gid : Subject) : narrowGroup read selected n gid =
      ⟨n.membership.insert gid ((read.edges gid).filterMap (keptEdge read selected)),
        n.groups.insert gid (read.groups[gid]?.getD ⟨""⟩),
        ((read.edges gid).filterMap (heldEdge read)).reverse ++ n.held,
        n.refused ++ (read.edges gid).filterMap (refusedEdge read)⟩ := by
  unfold narrowGroup Enumeration.edges
  rw [foldl_narrowEdge]
  simp

/-- The groups and members a narrowing of several groups gathers, read at one key. -/
theorem foldl_narrowGroup_maps (read : Enumeration) (selected order : List Subject)
    (n : Narrowing) (gid : Subject) :
    (order.foldl (narrowGroup read selected) n).groups[gid]? =
        (if gid ∈ order then some (read.groups[gid]?.getD ⟨""⟩) else n.groups[gid]?) ∧
      (order.foldl (narrowGroup read selected) n).membership[gid]? =
        (if gid ∈ order then some ((read.edges gid).filterMap (keptEdge read selected))
          else n.membership[gid]?) := by
  induction order generalizing n with
  | nil => simp
  | cons first order ih =>
    rw [List.foldl_cons, (ih _).1, (ih _).2, narrowGroup_eq]
    by_cases hrest : gid ∈ order
    · simp [hrest]
    · by_cases hfirst : first = gid
      · subst hfirst
        simp [hrest]
      · have hne : ¬ gid = first := fun heq => hfirst heq.symm
        have hget : ∀ {β : Type} (m : ExtTreeMap Subject β) (v : β), (m.insert first v)[gid]? = m[gid]? := by
          intro β m v
          rw [ExtTreeMap.getElem?_insert, if_neg]
          simpa using hfirst
        simp [hrest, hne, hget]

/-- The accounts and refusals a narrowing of several groups gathers. -/
theorem foldl_narrowGroup_lists (read : Enumeration) (selected order : List Subject)
    (n : Narrowing) :
    (∀ sub, sub ∈ (order.foldl (narrowGroup read selected) n).held ↔
        sub ∈ n.held ∨ ∃ gid ∈ order, sub ∈ (read.edges gid).filterMap (heldEdge read)) ∧
      (order.foldl (narrowGroup read selected) n).refused =
        n.refused ++ order.flatMap fun gid => (read.edges gid).filterMap (refusedEdge read) := by
  induction order generalizing n with
  | nil => simp
  | cons first order ih =>
    obtain ⟨hheld, hrefused⟩ := ih (narrowGroup read selected n first)
    rw [List.foldl_cons, hrefused, narrowGroup_eq]
    refine ⟨?_, by simp⟩
    intro sub
    rw [← narrowGroup_eq, hheld, narrowGroup_eq]
    simp only [List.mem_append, List.mem_reverse, List.mem_cons, exists_eq_or_imp]
    tauto

/-- The groups of the reading that are reached from the roots. -/
def Selected (read : Enumeration) (roots : List Subject) : Set Subject :=
  Reached (Nested read.groups read.membership) {x | x ∈ read.groups ∧ x ∈ roots}

/-- The subject at the end of an edge. -/
def Membership.subject : Membership → Subject
  | .user sub => sub
  | .group sub => sub

/-- An edge to an accepted account or to a selected group. -/
def Kept (read : Enumeration) (roots : List Subject) : Membership → Prop
  | .user sub => sub ∈ read.users
  | .group sub => sub ∈ Selected read roots

/-- The members a group keeps, in the order of its edges. -/
noncomputable def members (read : Enumeration) (roots : List Subject) (gid : Subject) :
    List Subject :=
  open Classical in ((read.edges gid).filter fun m => decide (Kept read roots m)).map
    Membership.subject

/-- A desired state is exactly what the reading and the roots select. -/
structure Exact (read : Enumeration) (roots : List Subject) (desired : Desired)
    (refused : List String) : Prop where
  groups : ∀ gid g, desired.groups[gid]? = some g ↔
    gid ∈ Selected read roots ∧ read.groups[gid]? = some g
  membership : ∀ gid mm, desired.membership[gid]? = some mm ↔
    gid ∈ Selected read roots ∧ mm = members read roots gid
  users : ∀ sub u, desired.users[sub]? = some u ↔
    read.users[sub]? = some u ∧ ∃ gid ∈ Selected read roots, .user sub ∈ read.edges gid
  /-- Exactly the accounts a selected group holds and the adapter turned away. -/
  refused : ∀ s, s ∈ refused ↔ ∃ gid ∈ Selected read roots, ∃ sub r,
    .user sub ∈ read.edges gid ∧ sub ∉ read.users ∧ read.refused[sub]? = some r ∧
      s = r.sentence
  /-- A member is an account or a group of the result. -/
  resolved : ∀ (gid : Subject) (mm : List Subject), desired.membership[gid]? = some mm → ∀ m ∈ mm,
    m ∈ desired.users ∨ m ∈ desired.groups

/-- The groups the walk from the roots selects. -/
def selection (read : Enumeration) (admission : Subject) (allowlist : List Subject) :
    List Subject :=
  selectClosure read.groups read.membership [] (admission :: allowlist).reverse

/-- The walk selects what is reached from the roots. -/
theorem mem_selection {read : Enumeration} {admission : Subject} {allowlist : List Subject}
    {x : Subject} :
    x ∈ selection read admission allowlist ↔ x ∈ Selected read (admission :: allowlist) := by
  have h := @mem_selectClosure read.groups read.membership [] (admission :: allowlist).reverse
    (by simp) (by simp)
  have hstarts : {x | x ∈ read.groups ∧
      (x ∈ ([] : List Subject) ∨ x ∈ (admission :: allowlist).reverse)} =
      {x | x ∈ read.groups ∧ x ∈ admission :: allowlist} := by
    ext x
    simp only [List.not_mem_nil, false_or, List.mem_reverse]
  rw [hstarts] at h
  exact Set.ext_iff.mp h x

/-- A selected group is one of the reading. -/
theorem mem_groups_of_selected {read : Enumeration} {roots : List Subject} {x : Subject}
    (h : x ∈ Selected read roots) : x ∈ read.groups := by
  have hsub : Selected read roots ⊆ {x | x ∈ read.groups} :=
    reached_subset (fun _ hx => hx.1) fun _ _ _ hab => hab.2
  exact hsub h

/-- The members the narrowing lists are those that are kept. -/
theorem filterMap_keptEdge (read : Enumeration) (admission : Subject) (allowlist : List Subject)
    (gid : Subject) :
    (read.edges gid).filterMap (keptEdge read (selection read admission allowlist)) =
      members read (admission :: allowlist) gid := by
  classical
  refine filterMap_eq_map_filter ?_ _
  intro m
  cases m with
  | user sub =>
    by_cases h : sub ∈ read.users
    · simp [keptEdge, Kept, Membership.subject, h]
    · simp [keptEdge, Kept, h]
  | group sub =>
    by_cases h : sub ∈ Selected read (admission :: allowlist)
    · simp [keptEdge, Kept, Membership.subject, mem_selection, h]
    · simp [keptEdge, Kept, mem_selection, h]

/-- The selected groups in the order they are narrowed. -/
def narrowOrder (read : Enumeration) (admission : Subject) (allowlist : List Subject) :
    List Subject :=
  (selection read admission allowlist).mergeSort fun a b => decide (a ≤ b)

/-- What the narrowing of the selected groups gathers. -/
def narrowed (read : Enumeration) (admission : Subject) (allowlist : List Subject) : Narrowing :=
  (narrowOrder read admission allowlist).foldl
    (narrowGroup read (selection read admission allowlist)) {}

/-- The narrowing visits exactly the selected groups. -/
theorem mem_narrowOrder {read : Enumeration} {admission : Subject} {allowlist : List Subject}
    {x : Subject} :
    x ∈ narrowOrder read admission allowlist ↔ x ∈ Selected read (admission :: allowlist) := by
  rw [narrowOrder, List.mem_mergeSort, mem_selection]

/-- The refusals a narrowing gathers. -/
theorem refused_narrowed (read : Enumeration) (admission : Subject) (allowlist : List Subject) :
    (narrowed read admission allowlist).refused =
      (narrowOrder read admission allowlist).flatMap
        fun gid => (read.edges gid).filterMap (refusedEdge read) := by
  rw [narrowed, (foldl_narrowGroup_lists read _ _ _).2]
  rfl

/-- The accounts a narrowing holds. -/
theorem mem_held_narrowed {read : Enumeration} {admission : Subject} {allowlist : List Subject}
    {sub : Subject} :
    sub ∈ (narrowed read admission allowlist).held ↔
      sub ∈ read.users ∧ ∃ gid ∈ Selected read (admission :: allowlist),
        .user sub ∈ read.edges gid := by
  rw [narrowed, (foldl_narrowGroup_lists read _ _ _).1]
  simp only [List.not_mem_nil, false_or, mem_narrowOrder]
  constructor
  · intro h
    obtain ⟨gid, hgid, hmem⟩ := h
    obtain ⟨m, hm, heq⟩ := List.mem_filterMap.mp hmem
    cases m with
    | user sub' =>
      by_cases hsub : sub' ∈ read.users
      · rw [heldEdge, if_pos hsub] at heq
        cases heq
        exact ⟨hsub, gid, hgid, hm⟩
      · rw [heldEdge, if_neg hsub] at heq
        cases heq
    | group sub' => cases heq
  · intro h
    obtain ⟨hsub, gid, hgid, hm⟩ := h
    exact ⟨gid, hgid, List.mem_filterMap.mpr ⟨_, hm, by simp [heldEdge, hsub]⟩⟩

/-- The groups and members of the narrowing, read at one key. -/
theorem narrowed_maps (read : Enumeration) (admission : Subject) (allowlist : List Subject)
    (gid : Subject) :
    (∀ g, (narrowed read admission allowlist).groups[gid]? = some g ↔
        gid ∈ Selected read (admission :: allowlist) ∧ read.groups[gid]? = some g) ∧
      ∀ mm, (narrowed read admission allowlist).membership[gid]? = some mm ↔
        gid ∈ Selected read (admission :: allowlist) ∧
          mm = members read (admission :: allowlist) gid := by
  obtain ⟨hgroups, hmembership⟩ := foldl_narrowGroup_maps read
    (selection read admission allowlist) (narrowOrder read admission allowlist) {} gid
  rw [narrowed, hgroups, hmembership, filterMap_keptEdge]
  by_cases hmem : gid ∈ narrowOrder read admission allowlist
  · have hsel := mem_narrowOrder.mp hmem
    obtain ⟨g, hg⟩ := Option.isSome_iff_exists.mp
      (ExtTreeMap.mem_iff_isSome_getElem?.mp (mem_groups_of_selected hsel))
    rw [if_pos hmem, if_pos hmem, hg]
    simp only [hsel, true_and, Option.getD_some, Option.some.injEq, true_and]
    exact ⟨fun _ => trivial, fun mm => eq_comm⟩
  · have hsel : gid ∉ Selected read (admission :: allowlist) :=
      fun h => hmem (mem_narrowOrder.mpr h)
    rw [if_neg hmem, if_neg hmem]
    simp [hsel]

/-- What is built is exactly what the reading and the roots select. -/
theorem exact_buildDesired (read : Enumeration) (admission : Subject) (allowlist : List Subject) :
    Exact read (admission :: allowlist) (buildDesired read admission allowlist).1
      (buildDesired read admission allowlist).2 := by
  have husers : ∀ sub u, (buildDesired read admission allowlist).1.users[sub]? = some u ↔
      read.users[sub]? = some u ∧ ∃ gid ∈ Selected read (admission :: allowlist),
        .user sub ∈ read.edges gid := by
    intro sub u
    have hfilter : (buildDesired read admission allowlist).1.users =
        read.users.filter fun sub _ =>
          decide (sub ∈ (narrowed read admission allowlist).held) := rfl
    rw [hfilter, ExtTreeMap.getElem?_filter', Option.filter_eq_some_iff, decide_eq_true_eq,
      mem_held_narrowed]
    constructor
    · intro h
      exact ⟨h.1, h.2.2⟩
    · intro h
      exact ⟨h.1, ExtTreeMap.mem_iff_isSome_getElem?.mpr (by simp [h.1]), h.2⟩
  have hmaps := narrowed_maps read admission allowlist
  refine ⟨fun gid => (hmaps gid).1, fun gid => (hmaps gid).2, husers, ?_, ?_⟩
  · intro s
    have hsorted : (buildDesired read admission allowlist).2 =
        (narrowed read admission allowlist).refused.mergeSort fun a b => decide (a ≤ b) := rfl
    rw [hsorted, List.mem_mergeSort, refused_narrowed, List.mem_flatMap]
    simp only [mem_narrowOrder, List.mem_filterMap]
    constructor
    · intro h
      obtain ⟨gid, hgid, m, hm, heq⟩ := h
      cases m with
      | user sub =>
        by_cases hsub : sub ∈ read.users
        · simp [refusedEdge, hsub] at heq
        · rw [refusedEdge, if_neg hsub] at heq
          obtain ⟨r, hr, hs⟩ := Option.map_eq_some_iff.mp heq
          exact ⟨gid, hgid, sub, r, hm, hsub, hr, hs.symm⟩
      | group sub => cases heq
    · intro h
      obtain ⟨gid, hgid, sub, r, hm, hsub, hr, hs⟩ := h
      exact ⟨gid, hgid, _, hm, by simp [refusedEdge, hsub, hr, hs]⟩
  · intro gid mm hmm m hm
    obtain ⟨hgid, heq⟩ := ((hmaps gid).2 mm).mp hmm
    rw [heq, members, List.mem_map] at hm
    obtain ⟨edge, hedge, rfl⟩ := hm
    obtain ⟨hin, hkept⟩ := List.mem_filter.mp hedge
    have hkept : Kept read (admission :: allowlist) edge := by
      classical
      exact of_decide_eq_true hkept
    cases edge with
    | user sub =>
      left
      obtain ⟨u, hu⟩ := Option.isSome_iff_exists.mp (ExtTreeMap.mem_iff_isSome_getElem?.mp hkept)
      rw [ExtTreeMap.mem_iff_isSome_getElem?]
      exact Option.isSome_iff_exists.mpr ⟨u, (husers sub u).mpr ⟨hu, gid, hgid, hin⟩⟩
    | group sub =>
      right
      obtain ⟨g, hg⟩ := Option.isSome_iff_exists.mp
        (ExtTreeMap.mem_iff_isSome_getElem?.mp (mem_groups_of_selected hkept))
      rw [ExtTreeMap.mem_iff_isSome_getElem?]
      exact Option.isSome_iff_exists.mpr ⟨g, ((hmaps sub).1 g).mpr ⟨hkept, hg⟩⟩

/-- Two readings differ in the order of their edges alone. -/
structure SameReading (read read' : Enumeration) : Prop where
  users : read'.users = read.users
  groups : read'.groups = read.groups
  refused : read'.refused = read.refused
  edges : ∀ gid, (read'.edges gid).Perm (read.edges gid)

/-- Two desired states differ in the order of their member lists alone. -/
structure SameDesired (desired desired' : Desired) : Prop where
  users : desired'.users = desired.users
  groups : desired'.groups = desired.groups
  present : ∀ gid, gid ∈ desired'.membership ↔ gid ∈ desired.membership
  members : ∀ (gid : Subject) (mm mm' : List Subject), desired.membership[gid]? = some mm →
    desired'.membership[gid]? = some mm' → mm'.Perm mm

/-- The same roots select the same groups of the same reading. -/
theorem selected_eq {read read' : Enumeration} {roots roots' : List Subject}
    (h : SameReading read read') (hroots : ∀ x, x ∈ roots' ↔ x ∈ roots) :
    Selected read' roots' = Selected read roots := by
  have hnested : Nested read'.groups read'.membership = Nested read.groups read.membership := by
    funext a b
    have hedge : .group b ∈ read'.membership[a]?.getD [] ↔ .group b ∈ read.membership[a]?.getD [] :=
      (h.edges a).mem_iff
    simp only [Nested, h.groups, hedge]
  have hstarts : {x | x ∈ read'.groups ∧ x ∈ roots'} = {x | x ∈ read.groups ∧ x ∈ roots} := by
    ext x
    simp only [Set.mem_ofPred_eq, h.groups, hroots]
  rw [Selected, Selected, hnested, hstarts]

/-- The same members are kept, in some order. -/
theorem members_perm {read read' : Enumeration} {roots roots' : List Subject}
    (h : SameReading read read') (hroots : ∀ x, x ∈ roots' ↔ x ∈ roots) (gid : Subject) :
    (members read' roots' gid).Perm (members read roots gid) := by
  have hkept : Kept read' roots' = Kept read roots := by
    funext m
    cases m with
    | user sub => rw [Kept, Kept, h.users]
    | group sub => rw [Kept, Kept, selected_eq h hroots]
  rw [members, members, hkept]
  exact ((h.edges gid).filter _).map _

/-- The same refusals are listed. -/
theorem refused_eq {read read' : Enumeration} {admission admission' : Subject}
    {allowlist allowlist' : List Subject} (h : SameReading read read')
    (hroots : ∀ x, x ∈ admission' :: allowlist' ↔ x ∈ admission :: allowlist) :
    (buildDesired read' admission' allowlist').2 = (buildDesired read admission allowlist).2 := by
  have horder : (narrowOrder read' admission' allowlist').Perm
      (narrowOrder read admission allowlist) := by
    have hnodup : ∀ r a l, (narrowOrder r a l).Nodup := fun r a l =>
      (List.mergeSort_perm _ _).nodup_iff.mpr (nodup_selectClosure List.nodup_nil)
    rw [List.perm_ext_iff_of_nodup (hnodup _ _ _) (hnodup _ _ _)]
    intro x
    rw [mem_narrowOrder, mem_narrowOrder, selected_eq h hroots]
  have hedge : refusedEdge read' = refusedEdge read := by
    funext m
    cases m with
    | user sub => rw [refusedEdge, refusedEdge, h.users, h.refused]
    | group sub => rfl
  have hperm : (narrowed read' admission' allowlist').refused.Perm
      (narrowed read admission allowlist).refused := by
    rw [refused_narrowed, refused_narrowed, hedge]
    exact horder.flatMap fun gid _ => (h.edges gid).filterMap _
  have hle : ∀ l : List String, (l.mergeSort fun a b => decide (a ≤ b)).Pairwise (· ≤ ·) := by
    intro l
    have hsorted := @List.pairwise_mergeSort String (fun a b => decide (a ≤ b))
      (by simpa using fun a b c => le_trans) (by simpa using fun a b => le_total a b) l
    simpa using hsorted
  refine List.Perm.eq_of_pairwise (fun a b _ _ => le_antisymm) (hle _) (hle _) ?_
  exact (List.mergeSort_perm _ _).trans (hperm.trans (List.mergeSort_perm _ _).symm)

/-- A snapshot is exactly the closure of its roots, and depends on the order of roots
and edges only in the order in which members are listed. -/
theorem closure_exact (read : Enumeration) (admission : Subject) (allowlist : List Subject) :
    Exact read (admission :: allowlist) (buildDesired read admission allowlist).1
      (buildDesired read admission allowlist).2 ∧
    ∀ read' admission' allowlist', SameReading read read' →
      (∀ x, x ∈ admission' :: allowlist' ↔ x ∈ admission :: allowlist) →
      SameDesired (buildDesired read admission allowlist).1
          (buildDesired read' admission' allowlist').1 ∧
        (buildDesired read' admission' allowlist').2 =
          (buildDesired read admission allowlist).2 := by
  refine ⟨exact_buildDesired read admission allowlist, ?_⟩
  intro read' admission' allowlist' h hroots
  have hexact := exact_buildDesired read admission allowlist
  have hexact' := exact_buildDesired read' admission' allowlist'
  have hsel := selected_eq h hroots
  refine ⟨⟨?_, ?_, ?_, ?_⟩, refused_eq h hroots⟩
  · refine ExtTreeMap.ext_getElem? ?_
    intro sub
    refine Option.ext ?_
    intro u
    have hedge : ∀ gid, Membership.user sub ∈ read'.edges gid ↔
        Membership.user sub ∈ read.edges gid := fun gid => (h.edges gid).mem_iff
    rw [hexact'.users, hexact.users, h.users, hsel]
    simp only [hedge]
  · refine ExtTreeMap.ext_getElem? ?_
    intro gid
    refine Option.ext ?_
    intro g
    rw [hexact'.groups, hexact.groups, hsel, h.groups]
  · intro gid
    have hpresent : ∀ r a l, gid ∈ (buildDesired r a l).1.membership ↔
        gid ∈ Selected r (a :: l) := by
      intro r a l
      have hmem := (exact_buildDesired r a l).membership gid
      rw [ExtTreeMap.mem_iff_isSome_getElem?, Option.isSome_iff_exists]
      constructor
      · intro hsome
        obtain ⟨mm, hmm⟩ := hsome
        exact ((hmem mm).mp hmm).1
      · intro hin
        exact ⟨_, (hmem _).mpr ⟨hin, rfl⟩⟩
    rw [hpresent, hpresent, hsel]
  · intro gid mm mm' hmm hmm'
    rw [((hexact.membership gid mm).mp hmm).2, ((hexact'.membership gid mm').mp hmm').2]
    exact members_perm h hroots gid

/-- A reading of two accounts and one group that holds them in some order. -/
def pairReading (edges : List Membership) : Enumeration where
  users := (({} : ExtTreeMap Subject DesiredUser).insert "a" ⟨"", [], true⟩).insert "b" ⟨"", [], true⟩
  groups := ({} : ExtTreeMap Subject DesiredGroup).insert "g" ⟨""⟩
  membership := ({} : ExtTreeMap Subject (List Membership)).insert "g" edges
  refused := {}

/-- The members of the group are listed in the order of its edges. -/
theorem members_pairReading (a b : Subject) (ha : a = "a" ∨ a = "b") (hb : b = "a" ∨ b = "b") :
    (buildDesired (pairReading [.user a, .user b]) "g" []).1.membership["g"]? = some [a, b] := by
  have huser : ∀ sub, sub = "a" ∨ sub = "b" → sub ∈ (pairReading [.user a, .user b]).users := by
    intro sub hsub
    simp only [pairReading, ExtTreeMap.mem_insert]
    rcases hsub with rfl | rfl
    · simp
    · simp
  have hsel : "g" ∈ Selected (pairReading [.user a, .user b]) ["g"] :=
    subset_reached ⟨by simp [pairReading], by simp⟩
  have hmembers : members (pairReading [.user a, .user b]) ["g"] "g" = [a, b] := by
    classical
    have hedges : (pairReading [.user a, .user b]).edges "g" = [.user a, .user b] := by
      simp [Enumeration.edges, pairReading]
    rw [members, hedges]
    simp [Kept, Membership.subject, huser a ha, huser b hb]
  rw [((exact_buildDesired _ "g" []).membership "g" _).mpr ⟨hsel, rfl⟩, hmembers]

/-- The two readings differ in the order of their edges alone. -/
theorem sameReading_pairReading :
    SameReading (pairReading [.user "a", .user "b"]) (pairReading [.user "b", .user "a"]) := by
  refine ⟨rfl, rfl, rfl, ?_⟩
  intro gid
  by_cases hgid : gid = "g"
  · subst hgid
    simpa [Enumeration.edges, pairReading] using List.Perm.swap _ _ _
  · simp [Enumeration.edges, pairReading, Ne.symm hgid]

end Tables

/-- The closure of the two readings from the one group. -/
theorem closure_exact_pair :
    @SameDesired asciiTables
      (@buildDesired asciiTables (@pairReading asciiTables [.user "a", .user "b"]) "g" []).1
      (@buildDesired asciiTables (@pairReading asciiTables [.user "b", .user "a"]) "g" ["g"]).1 := by
  let _ := asciiTables
  exact ((@closure_exact asciiTables (pairReading [.user "a", .user "b"]) "g" []).2
    (pairReading [.user "b", .user "a"]) "g" ["g"] sameReading_pairReading (by simp)).1

/-- Two orders of the same edges give two results: the members are listed as the edges
are. -/
theorem edge_order_shows :
    @SameReading asciiTables (@pairReading asciiTables [.user "a", .user "b"])
        (@pairReading asciiTables [.user "b", .user "a"]) ∧
      (@Desired.membership asciiTables (@buildDesired asciiTables
          (@pairReading asciiTables [.user "a", .user "b"]) "g" []).1)["g"]? ≠
        (@Desired.membership asciiTables (@buildDesired asciiTables
          (@pairReading asciiTables [.user "b", .user "a"]) "g" []).1)["g"]? := by
  let _ := asciiTables
  refine ⟨sameReading_pairReading, ?_⟩
  rw [members_pairReading _ _ (by simp) (by simp), members_pairReading _ _ (by simp) (by simp)]
  simp

end Kerbridge.DirectorySource

import Mathlib.Data.List.Nodup
import Mathlib.Data.List.Perm.Subperm
import Kerbridge.AuthentikDirectory
import Kerbridge.DesiredClosure
import Kerbridge.KeyedFold

/-!
# Whole reads of an authentik instance

The listing is read by page numbers while it may change, so that a page may miss
rows, repeat them or bring them out of order. The checks are indirect: keys that rise
strictly over all pages, counts, and edges that resolve. What passes them is the
listing itself, every row once.
-/

namespace Kerbridge.AuthentikDirectory

open Std (ExtTreeMap)
open UnicodeText DirectorySource Fallible StoredIdentity KeyedFold

section Ordered

variable {κ α : Type} [LinearOrder κ]

/-- The rows gathered so far rise strictly, up to the key remembered. -/
structure Collected.Rising (key : α → κ) (c : Collected κ α) : Prop where
  sorted : c.rows.Pairwise fun a b => key a < key b
  last : ∀ row ∈ c.rows, ∃ last, c.lastKey = some last ∧ key row ≤ last

/-- A row that is accepted is appended, and sorts after the row before. -/
theorem collectRow_ok {key : α → κ} {shown : κ → String} {what : String} {c c' : Collected κ α}
    {row : α} (h : collectRow key shown what c row = .ok c') :
    c' = ⟨c.prevCount, some (key row), c.rows ++ [row]⟩ ∧
      ∀ last, c.lastKey = some last → last < key row := by
  unfold collectRow at h
  cases hlast : c.lastKey with
  | none =>
    rw [hlast] at h
    cases h
    refine ⟨rfl, ?_⟩
    intro last h
    cases h
  | some last =>
    rw [hlast] at h
    obtain ⟨hle, hc⟩ := refuse_ok_iff.mp h
    cases hc
    refine ⟨rfl, ?_⟩
    intro last' h
    cases h
    exact lt_of_not_ge hle

/-- An accepted row keeps the rows rising. -/
theorem Collected.Rising.collectRow {key : α → κ} {shown : κ → String} {what : String}
    {c c' : Collected κ α} {row : α} (hc : c.Rising key)
    (h : collectRow key shown what c row = .ok c') : c'.Rising key := by
  obtain ⟨hc', hafter⟩ := collectRow_ok h
  subst hc'
  refine ⟨?_, ?_⟩
  · rw [List.pairwise_append]
    refine ⟨hc.sorted, List.pairwise_singleton _ _, ?_⟩
    intro a ha b hb
    obtain ⟨last, hlast, hle⟩ := hc.last a ha
    rw [List.mem_singleton.mp hb]
    exact lt_of_le_of_lt hle (hafter last hlast)
  · intro a ha
    refine ⟨key row, rfl, ?_⟩
    rcases List.mem_append.mp ha with ha | ha
    · obtain ⟨last, hlast, hle⟩ := hc.last a ha
      exact le_of_lt (lt_of_le_of_lt hle (hafter last hlast))
    · rw [List.mem_singleton.mp ha]

/-- An accepted page appends its rows, and leaves its count. -/
theorem collectPage_ok {key : α → κ} {shown : κ → String} {what : String} {c c' : Collected κ α}
    {page : Page α} (hc : c.Rising key) (h : collectPage key shown what c page = .ok c') :
    c'.Rising key ∧ c'.rows = c.rows ++ page.results ∧
      c'.prevCount = some page.pagination.count := by
  have hrows : page.results.foldlM (collectRow key shown what)
      ⟨some page.pagination.count, c.lastKey, c.rows⟩ = .ok c' := by
    unfold collectPage at h
    cases hprev : c.prevCount with
    | none =>
      rw [hprev] at h
      exact h
    | some prev =>
      rw [hprev] at h
      exact (refuse_ok_iff.mp h).2
  refine foldlM_ok_induction (fun done c' => c'.Rising key ∧ c'.rows = c.rows ++ done ∧
    c'.prevCount = some page.pagination.count) hrows ?_ ?_
  · exact ⟨⟨hc.sorted, hc.last⟩, by simp, rfl⟩
  · intro done row d d' hd hrow
    obtain ⟨hrising, hdone, hcount⟩ := hd
    refine ⟨hrising.collectRow hrow, ?_, ?_⟩
    · rw [(collectRow_ok hrow).1, hdone, List.append_assoc]
    · rw [(collectRow_ok hrow).1]
      exact hcount

/-- An accepted collection is the rows of its pages, rising strictly, as many as the
last page counts. -/
theorem ordered_ok {key : α → κ} {shown : κ → String} {what : String} {pages : List (Page α)}
    {rows : List α} (h : ordered key shown what pages = .ok rows) :
    rows.Pairwise (fun a b => key a < key b) ∧ rows = pages.flatMap Page.results ∧
      ∀ page, pages.getLast? = some page → (rows.length : ℤ) = page.pagination.count := by
  obtain ⟨c, hpages, hcount⟩ := bind_ok_iff.mp h
  have hc : c.Rising key ∧ c.rows = pages.flatMap Page.results ∧
      c.prevCount = pages.getLast?.map fun page => page.pagination.count := by
    refine foldlM_ok_induction (fun done c => c.Rising key ∧
      c.rows = done.flatMap Page.results ∧
        c.prevCount = done.getLast?.map fun page => page.pagination.count) hpages ?_ ?_
    · exact ⟨⟨List.Pairwise.nil, by simp⟩, rfl, rfl⟩
    · intro done page d d' hd hpage
      obtain ⟨hrising, hrows, _⟩ := hd
      obtain ⟨hrising', hrows', hcount'⟩ := collectPage_ok hrising hpage
      refine ⟨hrising', ?_, ?_⟩
      · rw [hrows', hrows, List.flatMap_append]
        simp
      · rw [hcount']
        simp
  obtain ⟨hrising, hrows, hprev⟩ := hc
  have hend : c.rows = rows ∧ ∀ count, c.prevCount = some count → (rows.length : ℤ) = count := by
    cases hp : c.prevCount with
    | none =>
      rw [hp] at hcount
      cases hcount
      refine ⟨rfl, ?_⟩
      intro count h
      cases h
    | some count =>
      rw [hp] at hcount
      obtain ⟨hlength, hok⟩ := refuse_ok_iff.mp hcount
      cases hok
      refine ⟨rfl, ?_⟩
      intro count' h
      cases h
      exact not_not.mp hlength
  obtain ⟨heq, hlength⟩ := hend
  have hsorted := hrising.sorted
  rw [heq] at hsorted hrows
  refine ⟨hsorted, hrows, ?_⟩
  intro page hpage
  apply hlength
  rw [hprev, hpage]
  rfl

/-- A page of a listing that may have shifted: rows of the listing, in any choice and
order, and the count of the listing. -/
structure Page.Of (truth : List α) (page : Page α) : Prop where
  rows : ∀ row ∈ page.results, row ∈ truth
  count : page.pagination.count = truth.length

/-- What is accepted of a shifted read is the listing, every row once. -/
theorem ordered_perm {key : α → κ} {shown : κ → String} {what : String} {pages : List (Page α)}
    {rows truth : List α} (hne : pages ≠ []) (hof : ∀ page ∈ pages, page.Of truth)
    (h : ordered key shown what pages = .ok rows) :
    rows.Perm truth ∧ (truth.map key).Nodup := by
  obtain ⟨hsorted, hrows, hcount⟩ := ordered_ok h
  have hnodup : (rows.map key).Nodup := by
    rw [List.Nodup, List.pairwise_map]
    exact hsorted.imp fun hlt => ne_of_lt hlt
  have hsub : rows ⊆ truth := by
    intro row hrow
    rw [hrows] at hrow
    obtain ⟨page, hpage, hmem⟩ := List.mem_flatMap.mp hrow
    exact (hof page hpage).rows row hmem
  have hlength : rows.length = truth.length := by
    have hlast := hcount _ (List.getLast?_eq_getLast_of_ne_nil hne)
    have htotal := (hof _ (List.getLast_mem hne)).count
    omega
  have hperm : rows.Perm truth :=
    (List.subperm_of_subset (List.Nodup.of_map key hnodup) hsub).perm_of_length_le (le_of_eq hlength.symm)
  exact ⟨hperm, (hperm.map key).nodup_iff.mp hnodup⟩

end Ordered

/-- The true listing: what both collections hold. -/
structure Listing where
  users : List RawUser
  groups : List RawGroup
  /-- Every user has a uuid of their own. -/
  subjects : (users.map RawUser.uuid).Nodup

/-- The subject of the user with a key. -/
def Listing.subjectOf (t : Listing) (pk : ℤ) : Option Subject :=
  (t.users.find? fun u => u.pk == pk).map RawUser.uuid

section Client

variable [Libraries] [UnicodeTables]

/-- A page is read out of a body that decodes, under the one status. -/
theorem classify_ready {α : Type} {decode : Bytes → Except String (Page α)} {r : Response}
    {page : Page α} (h : classify decode r = .ready page) :
    r.status = 200 ∧ decode r.body = .ok page := by
  unfold classify at h
  by_cases hs : r.status = 200
  · rw [if_pos hs] at h
    cases hd : decode r.body with
    | error why =>
      rw [hd] at h
      cases h
    | ok p =>
      rw [hd] at h
      cases h
      exact ⟨hs, rfl⟩
  · rw [if_neg hs] at h
    dsimp only at h
    split at h
    · split at h
      · cases h
      · cases h
    · split at h
      · cases h
      · cases h

/-- A page is accepted from a decoded answer alone. -/
theorem outcome_ready {α : Type} {decode : Bytes → Except String (Page α)} {what : String}
    {pageNum : ℤ} {e : Exchange} {page : Page α}
    (h : outcome decode what pageNum e = .ready page) :
    ∃ r, e.answer = .ok r ∧ r.status = 200 ∧ decode r.body = .ok page := by
  unfold outcome at h
  cases ha : e.answer with
  | error why =>
    rw [ha] at h
    cases h
  | ok r =>
    rw [ha] at h
    exact ⟨r, rfl, classify_ready h⟩

/-- A read that ends well has pages, each of them decoded from an answer, and at most
as many as the ceiling allows. -/
theorem readLoop_ok {α : Type} {decode : Bytes → Except String (Page α)} {what : String}
    {pages pages' : List (Page α)} {pageNum : ℤ} {net : List Exchange}
    (hroom : pages.length < maxPages) (h : readLoop decode what pages pageNum net = .ok pages') :
    pages' ≠ [] ∧ pages'.length ≤ maxPages ∧ ∀ page ∈ pages', page ∈ pages ∨
      ∃ e ∈ net, ∃ r, e.answer = .ok r ∧ r.status = 200 ∧ decode r.body = .ok page := by
  induction net generalizing pages pageNum with
  | nil => cases h
  | cons e rest ih =>
    rw [readLoop] at h
    cases hout : outcome decode what pageNum e with
    | rejected why =>
      rw [hout] at h
      cases h
    | refused why =>
      rw [hout] at h
      cases h
    | retry why =>
      rw [hout] at h
      obtain ⟨_, hrest⟩ := refuse_ok_iff.mp h
      obtain ⟨hne, hlength, hpages⟩ := ih hroom hrest
      refine ⟨hne, hlength, ?_⟩
      intro page hpage
      exact (hpages page hpage).imp_right fun hnet =>
        let ⟨e', he', hr⟩ := hnet
        ⟨e', List.mem_cons_of_mem _ he', hr⟩
    | ready page =>
      rw [hout] at h
      have hpage := outcome_ready hout
      cases hnext : nextPage pageNum page.pagination.next (pages.length + 1) what with
      | error why =>
        simp only [hnext] at h
        cases h
      | ok next =>
        simp only [hnext] at h
        cases next with
        | none =>
          cases h
          refine ⟨by simp, by simpa using Nat.succ_le_of_lt hroom, ?_⟩
          intro p hp
          rcases List.mem_append.mp hp with hp | hp
          · exact Or.inl hp
          · rw [List.mem_singleton.mp hp]
            exact Or.inr ⟨e, List.mem_cons_self, hpage⟩
        | some n =>
          have hceiling : pages.length + 1 < maxPages := by
            unfold nextPage at hnext
            split at hnext
            · cases hnext
            · obtain ⟨_, hrest⟩ := refuse_ok_iff.mp hnext
              exact lt_of_not_ge (refuse_ok_iff.mp hrest).1
          obtain ⟨hne, hlength, hpages⟩ := ih (by simpa using hceiling) h
          refine ⟨hne, hlength, ?_⟩
          intro p hp
          rcases hpages p hp with hp | hnet
          · rcases List.mem_append.mp hp with hp | hp
            · exact Or.inl hp
            · rw [List.mem_singleton.mp hp]
              exact Or.inr ⟨e, List.mem_cons_self, hpage⟩
          · obtain ⟨e', he', hr⟩ := hnet
            exact Or.inr ⟨e', List.mem_cons_of_mem _ he', hr⟩

/-- A collection read over pages of a listing that may have shifted. -/
def Shifted {α : Type} (decode : Bytes → Except String (Page α)) (truth : List α)
    (net : List Exchange) : Prop :=
  ∀ e ∈ net, ∀ r, e.answer = .ok r → r.status = 200 → ∀ page, decode r.body = .ok page →
    page.Of truth

/-- The pages of a shifted read are pages of the listing. -/
theorem pages_of_shifted {α : Type} {decode : Bytes → Except String (Page α)} {what : String}
    {truth : List α} {net : List Exchange} {pages : List (Page α)}
    (hnet : Shifted decode truth net) (h : readLoop decode what [] 1 net = .ok pages) :
    pages ≠ [] ∧ ∀ page ∈ pages, page.Of truth := by
  obtain ⟨hne, _, hpages⟩ := readLoop_ok (by simp [maxPages]) h
  refine ⟨hne, ?_⟩
  intro page hpage
  rcases hpages page hpage with hnil | hfrom
  · cases hnil
  · obtain ⟨e, he, r, hr, hstatus, hdecode⟩ := hfrom
    exact hnet e he r hr hstatus page hdecode

end Client

section Assembly

variable [UnicodeTables]

/-- The entries the users rows make. -/
theorem foldlM_assembleUser {rows : List RawUser} {byPk byPk' : ExtTreeMap ℤ Subject}
    {read read' : Enumeration}
    (h : rows.foldlM assembleUser (byPk, read) = .ok (byPk', read')) :
    byPk' = enter RawUser.pk RawUser.uuid byPk rows ∧
      read' = { read with users := enter RawUser.uuid desiredUser read.users rows } := by
  refine foldlM_ok_induction (fun done acc =>
    acc.1 = enter RawUser.pk RawUser.uuid byPk done ∧
      acc.2 = { read with users := enter RawUser.uuid desiredUser read.users done }) h ?_ ?_
  · exact ⟨rfl, rfl⟩
  · intro done u acc acc' hacc hu
    obtain ⟨hpks, hread⟩ := hacc
    obtain ⟨_, hentered⟩ := refuse_ok_iff.mp hu
    cases hentered
    refine ⟨?_, ?_⟩
    · rw [hpks]
      simp only [enter, List.foldl_append, List.foldl_cons, List.foldl_nil]
    · rw [hread]
      simp only [enter, List.foldl_append, List.foldl_cons, List.foldl_nil]

/-- The edges of a groups row, its members before its child groups, each member under
its subject. -/
def edgesOf (subjectOf : ℤ → Option Subject) (g : RawGroup) : List Membership :=
  g.users.filterMap (fun pk => (subjectOf pk).map Membership.user) ++
    g.children.map Membership.group

/-- The member edges of a row are all there. -/
theorem forall₂_memberEdge {byPk : ExtTreeMap ℤ Subject} {g : RawGroup} {pks : List ℤ}
    {edges : List Membership}
    (h : List.Forall₂ (fun pk e => memberEdge byPk g pk = .ok e) pks edges) :
    edges = pks.filterMap (fun pk => byPk[pk]?.map Membership.user) ∧
      ∀ pk ∈ pks, ∃ sub, byPk[pk]? = some sub := by
  induction h with
  | nil => simp
  | @cons pk e pks edges he _ ih =>
    unfold memberEdge at he
    cases hpk : byPk[pk]? with
    | none =>
      rw [hpk] at he
      cases he
    | some sub =>
      rw [hpk] at he
      cases he
      refine ⟨?_, ?_⟩
      · rw [List.filterMap_cons, hpk, ← ih.1]
        rfl
      · rw [List.forall_mem_cons]
        exact ⟨⟨sub, hpk⟩, ih.2⟩

/-- The child edges of a row are all there. -/
theorem forall₂_childEdge {groupIds : List String} {g : RawGroup} {children : List String}
    {edges : List Membership}
    (h : List.Forall₂ (fun c e => childEdge groupIds g c = .ok e) children edges) :
    edges = children.map Membership.group ∧ ∀ c ∈ children, c ∈ groupIds := by
  induction h with
  | nil => simp
  | @cons c e children edges he _ ih =>
    unfold childEdge at he
    by_cases hc : c ∈ groupIds
    · rw [if_pos hc] at he
      cases he
      refine ⟨?_, ?_⟩
      · rw [List.map_cons, ← ih.1]
      · rw [List.forall_mem_cons]
        exact ⟨hc, ih.2⟩
    · rw [if_neg hc] at he
      cases he

/-- What entering one groups row does, and what it checks. -/
theorem assembleGroup_ok {byPk : ExtTreeMap ℤ Subject} {groupIds : List String}
    {read read' : Enumeration} {g : RawGroup}
    (h : assembleGroup byPk groupIds read g = .ok read') :
    read' = ⟨read.users, read.groups.insert g.pk ⟨g.name⟩,
        read.membership.insert g.pk (edgesOf (fun pk => byPk[pk]?) g), read.refused⟩ ∧
      (∀ pk ∈ g.users, ∃ sub, byPk[pk]? = some sub) ∧ ∀ c ∈ g.children, c ∈ groupIds := by
  obtain ⟨members, hmembers, hrest⟩ := bind_ok_iff.mp h
  obtain ⟨children, hchildren, hread⟩ := bind_ok_iff.mp hrest
  cases hread
  obtain ⟨hm, hpks⟩ := forall₂_memberEdge (mapM_ok_iff.mp hmembers)
  obtain ⟨hc, hids⟩ := forall₂_childEdge (mapM_ok_iff.mp hchildren)
  refine ⟨?_, hpks, hids⟩
  rw [hm, hc]
  rfl

/-- The entries the groups rows make, and what each of them was checked for. -/
theorem foldlM_assembleGroup {byPk : ExtTreeMap ℤ Subject} {groupIds : List String}
    {rows : List RawGroup} {read read' : Enumeration}
    (h : rows.foldlM (assembleGroup byPk groupIds) read = .ok read') :
    read' = ⟨read.users, enter RawGroup.pk (fun g => ⟨g.name⟩) read.groups rows,
        enter RawGroup.pk (edgesOf fun pk => byPk[pk]?) read.membership rows, read.refused⟩ ∧
      ∀ g ∈ rows, (∀ pk ∈ g.users, ∃ sub, byPk[pk]? = some sub) ∧
        ∀ c ∈ g.children, c ∈ groupIds := by
  refine foldlM_ok_induction (fun done read' =>
    read' = ⟨read.users, enter RawGroup.pk (fun g => ⟨g.name⟩) read.groups done,
        enter RawGroup.pk (edgesOf fun pk => byPk[pk]?) read.membership done, read.refused⟩ ∧
      ∀ g ∈ done, (∀ pk ∈ g.users, ∃ sub, byPk[pk]? = some sub) ∧
        ∀ c ∈ g.children, c ∈ groupIds) h ?_ ?_
  · exact ⟨rfl, by simp⟩
  · intro done g r r' hr hg
    obtain ⟨hentered, hchecked⟩ := hr
    obtain ⟨hread, hpks, hids⟩ := assembleGroup_ok hg
    refine ⟨?_, ?_⟩
    · rw [hread, hentered]
      simp only [enter, List.foldl_append, List.foldl_cons, List.foldl_nil]
    · intro g' hg'
      rcases List.mem_append.mp hg' with hg' | hg'
      · exact hchecked g' hg'
      · rw [List.mem_singleton.mp hg']
        exact ⟨hpks, hids⟩

/-- An edge leads to a row of the reading. -/
def Resolves (read : Enumeration) : Membership → Prop
  | .user sub => sub ∈ read.users
  | .group sub => sub ∈ read.groups

/-- A reading holds the whole listing: every true row once, under its subject, and every
edge of it, which all resolve. -/
structure Whole (truth : Listing) (read : Enumeration) : Prop where
  users : ∀ u ∈ truth.users, read.users[u.uuid]? = some (desiredUser u)
  userKeys : read.users.keys.Perm (truth.users.map RawUser.uuid)
  groups : ∀ g ∈ truth.groups, read.groups[g.pk]? = some ⟨g.name⟩
  groupKeys : read.groups.keys.Perm (truth.groups.map RawGroup.pk)
  edges : ∀ g ∈ truth.groups, read.membership[g.pk]? = some (edgesOf truth.subjectOf g)
  edgeKeys : read.membership.keys.Perm (truth.groups.map RawGroup.pk)
  /-- Every member and child a row names is a row of the listing. -/
  named : ∀ g ∈ truth.groups, (∀ pk ∈ g.users, ∃ u ∈ truth.users, u.pk = pk) ∧
    ∀ c ∈ g.children, ∃ g' ∈ truth.groups, g'.pk = c
  /-- Every group a user names is a row of the listing. -/
  held : ∀ u ∈ truth.users, ∀ gid ∈ u.groups, ∃ g ∈ truth.groups, g.pk = gid
  resolved : ∀ (gid : Subject) edges, read.membership[gid]? = some edges →
    ∀ e ∈ edges, Resolves read e
  refused : read.refused = {}

omit [UnicodeTables] in
/-- The subjects entered by key are those of the listing. -/
theorem subjectOf_enter {truth : Listing} {rows : List RawUser} (hperm : rows.Perm truth.users)
    (hkeys : (truth.users.map RawUser.pk).Nodup) (pk : ℤ) :
    (enter RawUser.pk RawUser.uuid {} rows)[pk]? = truth.subjectOf pk := by
  have hrows : (rows.map RawUser.pk).Nodup := (hperm.map RawUser.pk).nodup_iff.mpr hkeys
  unfold Listing.subjectOf
  cases hfind : truth.users.find? fun u => u.pk == pk with
  | none =>
    have hnone : ∀ u ∈ rows, u.pk ≠ pk := by
      intro u hu
      simpa using List.find?_eq_none.mp hfind u (hperm.mem_iff.mp hu)
    rw [enter_of_forall_ne hnone]
    simp
  | some u =>
    have hpk : u.pk = pk := by simpa using List.find?_some hfind
    have hu : u ∈ rows := hperm.mem_iff.mpr (List.mem_of_find?_eq_some hfind)
    rw [← hpk, enter_of_mem hrows hu]
    rfl

/-- What the assembly accepts of shifted pages is the whole listing. -/
theorem assemble_whole {truth : Listing} {users : List (Page RawUser)}
    {groups : List (Page RawGroup)} {read : Enumeration} (husers : users ≠ [])
    (hofUsers : ∀ page ∈ users, page.Of truth.users) (hgroups : groups ≠ [])
    (hofGroups : ∀ page ∈ groups, page.Of truth.groups) (h : assemble users groups = .ok read) :
    Whole truth read := by
  obtain ⟨userRows, huserRows, h⟩ := bind_ok_iff.mp h
  obtain ⟨groupRows, hgroupRows, h⟩ := bind_ok_iff.mp h
  obtain ⟨⟨byPk, entered⟩, hentered, h⟩ := bind_ok_iff.mp h
  obtain ⟨_, hheld, h⟩ := bind_ok_iff.mp h
  obtain ⟨huserPerm, hpks⟩ := ordered_perm husers hofUsers huserRows
  obtain ⟨hgroupPerm, hids⟩ := ordered_perm hgroups hofGroups hgroupRows
  obtain ⟨hbyPk, hread⟩ := foldlM_assembleUser hentered
  obtain ⟨hread', hchecked⟩ := foldlM_assembleGroup h
  subst hread
  subst hread'
  have hsubjects : (userRows.map RawUser.uuid).Nodup :=
    (huserPerm.map RawUser.uuid).nodup_iff.mpr truth.subjects
  have hgroupKeys : (groupRows.map RawGroup.pk).Nodup :=
    (hgroupPerm.map RawGroup.pk).nodup_iff.mpr hids
  have hsubjectOf : (fun pk => byPk[pk]?) = truth.subjectOf := by
    funext pk
    rw [hbyPk]
    exact subjectOf_enter huserPerm hpks pk
  have hmemGroup : ∀ c, c ∈ groupRows.map RawGroup.pk ↔ ∃ g ∈ truth.groups, g.pk = c := by
    intro c
    rw [List.mem_map]
    simp only [hgroupPerm.mem_iff]
  have hnamed : ∀ g ∈ groupRows, (∀ pk ∈ g.users, ∃ u ∈ truth.users, u.pk = pk) ∧
      ∀ c ∈ g.children, ∃ g' ∈ truth.groups, g'.pk = c := by
    intro g hg
    refine ⟨?_, ?_⟩
    · intro pk hpk
      obtain ⟨sub, hsub⟩ := (hchecked g hg).1 pk hpk
      rw [hbyPk] at hsub
      rcases of_enter hsub with hrow | hbefore
      · obtain ⟨u, hu, hupk, _⟩ := hrow
        exact ⟨u, huserPerm.mem_iff.mp hu, hupk⟩
      · simp at hbefore
    · intro c hc
      exact (hmemGroup c).mp ((hchecked g hg).2 c hc)
  have husersIn : ∀ sub, sub ∈ enter RawUser.uuid desiredUser {} userRows ↔
      sub ∈ truth.users.map RawUser.uuid := by
    intro sub
    rw [← ExtTreeMap.mem_keys, (keys_enter hsubjects).mem_iff,
      (huserPerm.map RawUser.uuid).mem_iff]
  have hgroupsIn : ∀ sub,
      sub ∈ enter RawGroup.pk (fun g => (⟨g.name⟩ : DesiredGroup)) {} groupRows ↔
        ∃ g ∈ truth.groups, g.pk = sub := by
    intro sub
    rw [← ExtTreeMap.mem_keys, (keys_enter hgroupKeys).mem_iff, hmemGroup]
  refine ⟨?_, ?_, ?_, ?_, ?_, ?_, ?_, ?_, ?_, rfl⟩
  · intro u hu
    exact enter_of_mem hsubjects (huserPerm.mem_iff.mpr hu)
  · exact (keys_enter hsubjects).trans (huserPerm.map _)
  · intro g hg
    exact enter_of_mem hgroupKeys (hgroupPerm.mem_iff.mpr hg)
  · exact (keys_enter hgroupKeys).trans (hgroupPerm.map _)
  · intro g hg
    rw [← hsubjectOf]
    exact enter_of_mem hgroupKeys (hgroupPerm.mem_iff.mpr hg)
  · exact (keys_enter hgroupKeys).trans (hgroupPerm.map _)
  · intro g hg
    exact hnamed g (hgroupPerm.mem_iff.mpr hg)
  · intro u hu gid hgid
    have hall := forM_ok_iff.mp hheld u (huserPerm.mem_iff.mpr hu)
    have hone := forM_ok_iff.mp hall gid hgid
    by_cases hmem : gid ∈ groupRows.map RawGroup.pk
    · exact (hmemGroup gid).mp hmem
    · rw [if_neg hmem] at hone
      cases hone
  · intro gid edges hedges e he
    rcases of_enter hedges with hrow | hbefore
    · obtain ⟨g, hg, _, hvalue⟩ := hrow
      rw [← hvalue, edgesOf, List.mem_append, List.mem_filterMap, List.mem_map] at he
      rcases he with hmember | hchild
      · obtain ⟨pk, hpk, hedge⟩ := hmember
        obtain ⟨sub, hsub, heq⟩ := Option.map_eq_some_iff.mp hedge
        rw [← heq]
        refine (husersIn sub).mpr ?_
        rw [hbyPk] at hsub
        rcases of_enter hsub with hrow' | hbefore'
        · obtain ⟨u, hu, _, huuid⟩ := hrow'
          exact List.mem_map.mpr ⟨u, huserPerm.mem_iff.mp hu, huuid⟩
        · simp at hbefore'
      · obtain ⟨c, hc, heq⟩ := hchild
        rw [← heq]
        exact (hgroupsIn c).mpr ((hnamed g hg).2 c hc)
    · simp at hbefore

/-- A snapshot is published only with every configured root the planner does not
answer for. -/
theorem completeSnapshot_ok {read : Enumeration} {roots : Roots} {snapshot : SourceSnapshot}
    (h : completeSnapshot read roots = .ok snapshot) :
    (∀ root ∈ roots.extra, root ∈ read.groups) ∧ snapshot = roots.narrow read := by
  obtain ⟨hmissing, hok⟩ := refuse_ok_iff.mp h
  cases hok
  refine ⟨?_, rfl⟩
  intro root hroot
  have hnone := List.filter_eq_nil_iff.mp (not_not.mp hmissing) root hroot
  simpa using hnone

end Assembly

section Advance

variable [Libraries] [UnicodeTables]

/-- A cycle over pages of a listing that may have shifted is refused, or finds no
credential, or publishes what the roots select of the whole listing, every configured
root in it but the admission root. -/
theorem whole_read {truth : Listing} {s : AuthentikSource} {c : Cycle}
    (husers : Shifted Libraries.usersPage truth.users c.users)
    (hgroups : Shifted Libraries.groupsPage truth.groups c.groups) :
    (∃ e, s.advance c = .error e) ∨
      (∃ why, c.credential = .ok none ∧ s.advance c = .ok (.idle why)) ∨
      ∃ read, Whole truth read ∧ (∀ root ∈ s.roots.extra, root ∈ read.groups) ∧
        s.advance c = .ok (.complete (s.roots.narrow read)) := by
  cases hadvance : s.advance c with
  | error e => exact Or.inl ⟨e, rfl⟩
  | ok progress =>
    refine Or.inr ?_
    unfold AuthentikSource.advance at hadvance
    cases hcredential : c.credential with
    | error why =>
      rw [hcredential] at hadvance
      cases hadvance
    | ok token =>
      rw [hcredential] at hadvance
      cases token with
      | none =>
        cases hadvance
        exact Or.inl ⟨_, rfl, rfl⟩
      | some token =>
        refine Or.inr ?_
        cases hclient : c.client with
        | error why =>
          rw [hclient] at hadvance
          cases hadvance
        | ok _ =>
          rw [hclient] at hadvance
          obtain ⟨⟨users, groups⟩, hboth, hadvance⟩ := bind_ok_iff.mp hadvance
          obtain ⟨read, hread, hadvance⟩ := bind_ok_iff.mp hadvance
          obtain ⟨snapshot, hsnapshot, hadvance⟩ := bind_ok_iff.mp hadvance
          obtain ⟨users', huserPages, hboth⟩ := bind_ok_iff.mp hboth
          obtain ⟨groups', hgroupPages, hboth⟩ := bind_ok_iff.mp hboth
          cases hboth
          cases hadvance
          obtain ⟨husersNe, husersOf⟩ := pages_of_shifted husers huserPages
          obtain ⟨hgroupsNe, hgroupsOf⟩ := pages_of_shifted hgroups hgroupPages
          obtain ⟨hroots, hnarrow⟩ := completeSnapshot_ok (mapError_ok_iff.mp hsnapshot)
          refine ⟨read, ?_, hroots, by rw [hnarrow]⟩
          exact assemble_whole husersNe husersOf hgroupsNe hgroupsOf (mapError_ok_iff.mp hread)

end Advance

/-- Decoders that read one page of one group, and a page of no users. -/
@[reducible] def sampleLibraries : Libraries where
  usersPage _ := .ok ⟨⟨0, 0⟩, []⟩
  groupsPage _ := .ok ⟨⟨0, 1⟩, [⟨"engineering", "Engineering", [], []⟩]⟩
  detailOf _ := ""

/-- The listing those pages are of. -/
def sampleListing : Listing := ⟨[], [⟨"engineering", "Engineering", [], []⟩], List.nodup_nil⟩

/-- A source whose admission group is not in the listing. -/
def sampleSource : AuthentikSource :=
  ⟨"authentik", "/etc/kerbridge/token", "admission", none, ["engineering"]⟩

/-- A cycle that is answered at once. -/
def sampleCycle : Cycle where
  credential := .ok (some "token")
  users := [⟨false, .ok ⟨200, []⟩⟩]
  groups := [⟨false, .ok ⟨200, []⟩⟩]

/-- The pages of the cycle are pages of the listing. -/
theorem sampleCycle_shifted :
    @Shifted _ sampleLibraries.usersPage sampleListing.users sampleCycle.users ∧
      @Shifted _ sampleLibraries.groupsPage sampleListing.groups sampleCycle.groups := by
  refine ⟨?_, ?_⟩
  · intro e _ r _ _ page hpage
    cases hpage
    exact ⟨by simp, rfl⟩
  · intro e _ r _ _ page hpage
    cases hpage
    exact ⟨by simp [sampleListing], rfl⟩

/-- What the cycle reads. -/
def sampleRead : @Enumeration asciiTables :=
  @Enumeration.mk asciiTables {}
    (({} : ExtTreeMap Subject DesiredGroup).insert "engineering" ⟨"Engineering"⟩)
    (({} : ExtTreeMap Subject (List Membership)).insert "engineering" []) {}

/-- The assembly of the two pages. -/
theorem assemble_sample : @assemble asciiTables [⟨⟨0, 0⟩, []⟩]
    [⟨⟨0, 1⟩, [⟨"engineering", "Engineering", [], []⟩]⟩] = .ok sampleRead := by
  rfl

/-- The cycle publishes the one group. -/
theorem sampleCycle_advance :
    @AuthentikSource.advance sampleLibraries asciiTables sampleSource sampleCycle =
      .ok (@Progress.complete asciiTables
        (@Roots.narrow asciiTables sampleSource.roots sampleRead)) := by
  let _ := sampleLibraries
  let _ := asciiTables
  have hroots : completeSnapshot sampleRead sampleSource.roots =
      .ok (sampleSource.roots.narrow sampleRead) := by
    have hroot : "engineering" ∈ sampleRead.groups := by simp [sampleRead]
    unfold completeSnapshot
    rw [if_neg]
    simp [sampleSource, AuthentikSource.roots, Roots.new, hroot]
  have hread : readBoth sampleCycle = .ok ([⟨⟨0, 0⟩, []⟩],
      [⟨⟨0, 1⟩, [⟨"engineering", "Engineering", [], []⟩]⟩]) := rfl
  unfold AuthentikSource.advance
  simp only [sampleCycle] at hread ⊢
  rw [hread, ok_bind, assemble_sample]
  change ((completeSnapshot sampleRead sampleSource.roots).mapError SourceError.notWhole >>=
    fun snapshot => pure (Progress.complete snapshot)) = _
  rw [hroots]
  rfl

/-- What the cycle of the sample concludes. -/
theorem whole_read_sample :
    (∃ e, @AuthentikSource.advance sampleLibraries asciiTables sampleSource sampleCycle = .error e) ∨
      (∃ why, sampleCycle.credential = .ok none ∧
        @AuthentikSource.advance sampleLibraries asciiTables sampleSource sampleCycle =
          .ok (@Progress.idle asciiTables why)) ∨
      ∃ read, @Whole asciiTables sampleListing read ∧
        (∀ root ∈ sampleSource.roots.extra, root ∈ @Enumeration.groups asciiTables read) ∧
        @AuthentikSource.advance sampleLibraries asciiTables sampleSource sampleCycle =
          .ok (@Progress.complete asciiTables (@Roots.narrow asciiTables sampleSource.roots read)) :=
  @whole_read sampleLibraries asciiTables sampleListing sampleSource sampleCycle
    sampleCycle_shifted.1 sampleCycle_shifted.2

/-- The admission group is configured, is no group of the listing, and a snapshot is
published all the same. -/
theorem admission_root_absent :
    @Shifted _ sampleLibraries.usersPage sampleListing.users sampleCycle.users ∧
      @Shifted _ sampleLibraries.groupsPage sampleListing.groups sampleCycle.groups ∧
      @AuthentikSource.advance sampleLibraries asciiTables sampleSource sampleCycle =
        .ok (@Progress.complete asciiTables
          (@Roots.narrow asciiTables sampleSource.roots sampleRead)) ∧
      sampleSource.roots.admission ∉ @Enumeration.groups asciiTables sampleRead := by
  refine ⟨sampleCycle_shifted.1, sampleCycle_shifted.2, sampleCycle_advance, ?_⟩
  simp [sampleRead, sampleSource, AuthentikSource.roots, Roots.new]

end Kerbridge.AuthentikDirectory

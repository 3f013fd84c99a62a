import Mathlib.Data.Finset.Dedup
import Mathlib.Data.Finset.Card
import Kerbridge.PlanPasses
import Kerbridge.UntouchedObjects

/-!
# The order a directory is read in

A cycle reads the managed objects, the members of every group, the foreign login names
and the unmanaged names in whatever order the directory gives them. The plan made from
two such readings is the same, but for the order of the role markers taken off and for
what is deliberately reported in the order of receipt.
-/

namespace Kerbridge.Planner

open Std (ExtTreeMap)
open UnicodeText DirectorySource SamName DistinguishedName RealmState StoredIdentity PlannerNames
  Fallible TwoRuns

/-- The managed objects, each with its subject and its stored identity. -/
def identified (current : Current) : List (Subject × String) :=
  current.users.map (fun e => (e.1, e.2.identity)) ++
    current.groups.map fun e => (e.1, e.2.identity)

/-- A subject one of whose identities is stored on more than one object. -/
def Ambiguous (objects : List (Subject × String)) (oid : Subject) : Prop :=
  ∃ text, (oid, text) ∈ objects ∧ 2 ≤ (objects.map Prod.snd).count text

/-- The report of two objects with one identity. -/
def twinReport (dn prevDn : String) : String :=
  "ambiguous identity value on " ++ dn ++ " and " ++ prevDn ++ " - both excluded"

/-- Where the scan stands after some objects. -/
structure Scanned (current : Current) (done : List (Subject × String)) (sc : Scan) : Prop where
  seen : sc.seen = done.reverse.map Prod.swap
  dupes : ∀ oid, oid ∈ sc.dupes ↔ Ambiguous done oid
  reports : sc.conflicts.length + (done.map Prod.snd).toFinset.card = done.length
  texts : ∀ text ∈ sc.conflicts, ∃ dn prevDn, dn ∈ dnsOf current sc.dupes ∧
    prevDn ∈ dnsOf current sc.dupes ∧ text = twinReport dn prevDn

/-- One identity names one subject. -/
def OneSubject (objects : List (Subject × String)) : Prop :=
  ∀ o ∈ objects, ∀ o' ∈ objects, o.2 = o'.2 → o.1 = o'.1

/-- More ambiguous subjects have more names. -/
theorem dnsOf_mono {current : Current} {oids oids' : List Subject} (h : ∀ oid ∈ oids, oid ∈ oids')
    {dn : String} (hdn : dn ∈ dnsOf current oids) : dn ∈ dnsOf current oids' := by
  unfold dnsOf at hdn ⊢
  simp only [List.mem_append, List.mem_map, List.mem_filter, List.contains_iff_mem] at hdn ⊢
  rcases hdn with ⟨e, ⟨he, hoid⟩, heq⟩ | ⟨e, ⟨he, hoid⟩, heq⟩
  · exact Or.inl ⟨e, ⟨he, h _ hoid⟩, heq⟩
  · exact Or.inr ⟨e, ⟨he, h _ hoid⟩, heq⟩

/-- One more object makes its subject ambiguous when its identity was seen before. -/
theorem ambiguous_snoc {done : List (Subject × String)} {o : Subject × String}
    (h : OneSubject (done ++ [o])) (oid : Subject) :
    Ambiguous (done ++ [o]) oid ↔ Ambiguous done oid ∨ oid = o.1 ∧ o.2 ∈ done.map Prod.snd := by
  have hcount : ∀ text, ((done ++ [o]).map Prod.snd).count text =
      (done.map Prod.snd).count text + if o.2 = text then 1 else 0 := by
    intro text
    rw [List.map_append, List.count_append, List.map_singleton, List.count_singleton]
    simp only [beq_iff_eq]
  constructor
  · rintro ⟨text, hmem, htwice⟩
    rw [hcount] at htwice
    by_cases hsame : o.2 = text
    · rw [if_pos hsame] at htwice
      have hseen : o.2 ∈ done.map Prod.snd := by
        rw [hsame]
        exact List.count_pos_iff.mp (by omega)
      have howner : oid = o.1 := h (oid, text) hmem o (by simp) hsame.symm
      exact Or.inr ⟨howner, hseen⟩
    · rw [if_neg hsame, Nat.add_zero] at htwice
      refine Or.inl ⟨text, ?_, htwice⟩
      rcases List.mem_append.mp hmem with hold | hnew
      · exact hold
      · rw [List.mem_singleton] at hnew
        exact absurd (congrArg Prod.snd hnew).symm hsame
  · rintro (⟨text, hmem, htwice⟩ | ⟨rfl, hseen⟩)
    · refine ⟨text, List.mem_append_left _ hmem, ?_⟩
      rw [hcount]
      omega
    · refine ⟨o.2, by simp, ?_⟩
      have hpos : 0 < (done.map Prod.snd).count o.2 := List.count_pos_iff.mpr hseen
      rw [hcount, if_pos rfl]
      omega

/-- The number of distinct identities, one object later. -/
theorem distinct_snoc (done : List (Subject × String)) (o : Subject × String) :
    ((done ++ [o]).map Prod.snd).toFinset.card =
      (done.map Prod.snd).toFinset.card + if o.2 ∈ done.map Prod.snd then 0 else 1 := by
  have hset : ((done ++ [o]).map Prod.snd).toFinset =
      insert o.2 (done.map Prod.snd).toFinset := by
    ext text
    simp
  rw [hset]
  by_cases hseen : o.2 ∈ done.map Prod.snd
  · rw [Finset.insert_eq_of_mem (List.mem_toFinset.mpr hseen), if_pos hseen, Nat.add_zero]
  · rw [Finset.card_insert_of_notMem (mt List.mem_toFinset.mp hseen), if_neg hseen]

/-- One more object is scanned. -/
theorem scanObject_scanned {current : Current} {dnAt : Subject → Option String}
    {done : List (Subject × String)} {sc : Scan} {oid : Subject} {identity dn found : String}
    (hfound : dnAt oid = some found)
    (hdns : ∀ oids : List Subject, oid ∈ oids → dn ∈ dnsOf current oids ∧
      found ∈ dnsOf current oids)
    (hone : OneSubject (done ++ [(oid, identity)])) (h : Scanned current done sc) :
    ∃ sc', scanObject dnAt sc oid identity dn = .ok sc' ∧
      Scanned current (done ++ [(oid, identity)]) sc' := by
  have hseen : (identity, oid) :: sc.seen = (done ++ [(oid, identity)]).reverse.map Prod.swap := by
    rw [h.seen, List.reverse_append]
    rfl
  have hlen : (done ++ [(oid, identity)]).length = done.length + 1 := by simp
  unfold scanObject
  cases hprev : sc.seen.lookup identity with
  | none =>
    have hfresh : identity ∉ done.map Prod.snd := by
      intro hmem
      obtain ⟨o, ho, heq⟩ := List.mem_map.mp hmem
      have hin : (identity, o.1) ∈ sc.seen := by
        rw [h.seen]
        refine List.mem_map.mpr ⟨o, List.mem_reverse.mpr ho, ?_⟩
        rw [← heq]
        rfl
      have hno := List.lookup_eq_none_iff.mp hprev _ hin
      simp at hno
    refine ⟨_, rfl, hseen, ?_, ?_, h.texts⟩
    · intro o
      rw [ambiguous_snoc hone, h.dupes]
      simp only [hfresh, and_false, or_false]
    · rw [distinct_snoc, if_neg hfresh, hlen, ← h.reports]
      rfl
  | some prev =>
    obtain ⟨front, back, hsplit, _⟩ := List.lookup_eq_some_iff.mp hprev
    have hmem : (prev, identity) ∈ done := by
      have hin : (identity, prev) ∈ done.reverse.map Prod.swap := by
        rw [← h.seen, hsplit]
        simp
      obtain ⟨o, ho, heq⟩ := List.mem_map.mp hin
      have hswap : o = (prev, identity) := by
        rw [← Prod.swap_swap o, heq]
        rfl
      rw [← hswap]
      exact List.mem_reverse.mp ho
    have hsame : prev = oid :=
      hone _ (List.mem_append_left _ hmem) (oid, identity) (by simp) rfl
    subst hsame
    have hold : identity ∈ done.map Prod.snd := List.mem_map.mpr ⟨_, hmem, rfl⟩
    dsimp only
    rw [hfound]
    refine ⟨_, rfl, hseen, ?_, ?_, ?_⟩
    · intro o
      rw [ambiguous_snoc hone, List.mem_cons, List.mem_cons, h.dupes]
      simp only [hold, and_true]
      tauto
    · rw [distinct_snoc, if_pos hold, hlen, ← h.reports, List.length_append, List.length_singleton]
      omega
    · intro text htext
      rcases List.mem_append.mp htext with hbefore | hnew
      · obtain ⟨d, d', hd, hd', heq⟩ := h.texts text hbefore
        have hmore : ∀ o ∈ sc.dupes, o ∈ prev :: prev :: sc.dupes := fun o ho =>
          List.mem_cons_of_mem _ (List.mem_cons_of_mem _ ho)
        exact ⟨d, d', dnsOf_mono hmore hd, dnsOf_mono hmore hd', heq⟩
      · rw [List.mem_singleton] at hnew
        obtain ⟨hdn, hprevDn⟩ := hdns (prev :: prev :: sc.dupes) List.mem_cons_self
        exact ⟨dn, found, hdn, hprevDn, hnew⟩

/-- Several objects of one kind are scanned. -/
theorem foldlM_scanned {α : Type} {current : Current} {entries rest : List (Subject × α)}
    {text dnText : α → String} {done : List (Subject × String)} {sc : Scan}
    (hsub : ∀ e ∈ rest, e ∈ entries)
    (hdns : ∀ e ∈ entries, ∀ oids : List Subject, e.1 ∈ oids → dnText e.2 ∈ dnsOf current oids)
    (hone : OneSubject (done ++ rest.map fun e => (e.1, text e.2)))
    (h : Scanned current done sc) :
    ∃ sc', rest.foldlM (fun sc e => scanObject (fun oid => (lookup entries oid).map dnText) sc e.1
        (text e.2) (dnText e.2)) sc = .ok sc' ∧
      Scanned current (done ++ rest.map fun e => (e.1, text e.2)) sc' := by
  induction rest generalizing done sc with
  | nil => exact ⟨sc, rfl, by simpa using h⟩
  | cons e rest ih =>
    obtain ⟨x, hx⟩ := lookup_isSome (hsub e List.mem_cons_self)
    have hsplit : done ++ (e :: rest).map (fun e => (e.1, text e.2)) =
        done ++ [(e.1, text e.2)] ++ rest.map fun e => (e.1, text e.2) := by simp
    rw [hsplit] at hone ⊢
    have hfirst : OneSubject (done ++ [(e.1, text e.2)]) := fun o ho o' ho' =>
      hone o (List.mem_append_left _ ho) o' (List.mem_append_left _ ho')
    have hnames : ∀ oids : List Subject, e.1 ∈ oids →
        dnText e.2 ∈ dnsOf current oids ∧ dnText x ∈ dnsOf current oids := by
      intro oids hoid
      exact ⟨hdns e (hsub e List.mem_cons_self) oids hoid,
        hdns (e.1, x) (mem_of_lookup hx) oids hoid⟩
    have hat : (lookup entries e.1).map dnText = some (dnText x) := by
      rw [hx]
      rfl
    obtain ⟨mid, hmid, hscanned⟩ := @scanObject_scanned current
      (fun oid => (lookup entries oid).map dnText) _ _ _ _ _ _ hat hnames hfirst h
    obtain ⟨sc', hrest, hdone⟩ := ih (fun e he => hsub e (List.mem_cons_of_mem _ he)) hone hscanned
    refine ⟨sc', ?_, hdone⟩
    rw [List.foldlM_cons, hmid, ok_bind]
    exact hrest

/-- A directory in which one identity names one subject is scanned to its end. -/
theorem scan_scanned {current : Current} (hone : OneSubject (identified current)) :
    ∃ sc, scan current = .ok sc ∧ Scanned current (identified current) sc := by
  have hstart : Scanned current [] {} := by
    refine ⟨rfl, ?_, rfl, ?_⟩
    · intro oid
      simp [Ambiguous]
    · intro text htext
      cases htext
  have husers : OneSubject ([] ++ current.users.map fun e => (e.1, e.2.identity)) :=
    fun o ho o' ho' => hone o (List.mem_append_left _ ho) o' (List.mem_append_left _ ho')
  have huserDns : ∀ e ∈ current.users, ∀ oids : List Subject, e.1 ∈ oids →
      e.2.dn ∈ dnsOf current oids := by
    intro e he oids hoid
    refine List.mem_append_left _ (List.mem_map.mpr ⟨e, List.mem_filter.mpr ⟨he, ?_⟩, rfl⟩)
    exact List.contains_iff_mem.mpr hoid
  have hgroupDns : ∀ e ∈ current.groups, ∀ oids : List Subject, e.1 ∈ oids →
      e.2.dn ∈ dnsOf current oids := by
    intro e he oids hoid
    refine List.mem_append_right _ (List.mem_map.mpr ⟨e, List.mem_filter.mpr ⟨he, ?_⟩, rfl⟩)
    exact List.contains_iff_mem.mpr hoid
  obtain ⟨mid, hmid, hscanned⟩ := foldlM_scanned (fun e he => he) huserDns husers hstart
  obtain ⟨sc, hsc, hdone⟩ := foldlM_scanned (fun e he => he) hgroupDns hone hscanned
  refine ⟨sc, ?_, hdone⟩
  unfold scan
  rw [hmid, ok_bind]
  exact hsc

/-- One group in both readings. -/
def SameEntry (e e' : Subject × CurrentGroup) : Prop := e'.1 = e.1 ∧ SameGroup e.2 e'.2

/-- The groups of one directory, in two orders. -/
def Reordered (entries entries' : List (Subject × CurrentGroup)) : Prop :=
  ∃ mid, entries.Perm mid ∧ List.Forall₂ SameEntry mid entries'

/-- What is asked of every group is asked of the same groups. -/
theorem Reordered.filter {entries entries' : List (Subject × CurrentGroup)}
    (h : Reordered entries entries') {p : Subject × CurrentGroup → Bool}
    (hp : ∀ e e', SameEntry e e' → p e' = p e) :
    Reordered (entries.filter p) (entries'.filter p) := by
  obtain ⟨mid, hperm, hsame⟩ := h
  refine ⟨mid.filter p, hperm.filter p, ?_⟩
  refine List.rel_filter ?_ hsame
  intro e e' he
  show p e = true ↔ p e' = true
  rw [hp e e' he]

/-- What is read off every group is read in both orders. -/
theorem Reordered.map {β : Type} {entries entries' : List (Subject × CurrentGroup)}
    (h : Reordered entries entries') {f : Subject × CurrentGroup → β}
    (hf : ∀ e e', SameEntry e e' → f e' = f e) : (entries.map f).Perm (entries'.map f) := by
  obtain ⟨mid, hperm, hsame⟩ := h
  have heq : mid.map f = entries'.map f := by
    refine List.forall₂_eq_eq_eq ▸ ?_
    rw [List.forall₂_map_left_iff, List.forall₂_map_right_iff]
    exact hsame.imp fun e e' he => (hf e e' he).symm
  rw [← heq]
  exact hperm.map f

/-- One directory, read in two orders. -/
structure Reread (current current' : Current) : Prop where
  users : current.users.Perm current'.users
  groups : Reordered current.groups current'.groups
  foreignSams : current.foreignSams.Perm current'.foreignSams
  unmanagedDns : current.unmanagedDns.Perm current'.unmanagedDns

/-- Every subject is read from its identity, and stored in one spelling for each kind. -/
structure Legible (current : Current) : Prop where
  oneSubject : OneSubject (identified current)
  users : ∀ e ∈ current.users, ∀ e' ∈ current.users, e.1 = e'.1 → e.2.identity = e'.2.identity
  groups : ∀ e ∈ current.groups, ∀ e' ∈ current.groups, e.1 = e'.1 → e.2.identity = e'.2.identity

/-- A map is read at the last entry with a key. -/
theorem lookup_eq_last {α : Type} (entries : List (Subject × α)) (oid : Subject) :
    lookup entries oid = ((entries.filter fun e => e.1 == oid).getLast?).map Prod.snd := by
  unfold lookup
  rw [← List.head?_filter, List.filter_reverse, List.head?_reverse]

/-- A map is the same in another order where one key has one entry. -/
theorem lookup_of_perm {α : Type} {entries entries' : List (Subject × α)} {oid : Subject}
    (hperm : entries.Perm entries')
    (honce : (entries.filter fun e => e.1 == oid).length ≤ 1) :
    lookup entries' oid = lookup entries oid := by
  have hfilter : (entries.filter fun e => e.1 == oid).Perm
      (entries'.filter fun e => e.1 == oid) := hperm.filter _
  have hsame : entries'.filter (fun e => e.1 == oid) = entries.filter fun e => e.1 == oid := by
    generalize (entries.filter fun e => e.1 == oid) = found at honce hfilter
    match found with
    | [] => exact hfilter.nil_eq.symm
    | [e] => exact List.perm_singleton.mp hfilter.symm
    | _ :: _ :: _ => simp at honce
  rw [lookup_eq_last, lookup_eq_last, hsame]

/-- The maps of two lists of the same groups read the same groups. -/
theorem lookup_of_same {entries entries' : List (Subject × CurrentGroup)}
    (h : List.Forall₂ SameEntry entries entries') (oid : Subject) :
    Option.Rel SameGroup (lookup entries oid) (lookup entries' oid) := by
  unfold lookup
  have hrev := List.rel_reverse h
  generalize entries.reverse = l, entries'.reverse = l' at hrev
  induction hrev with
  | nil => exact Option.Rel.none
  | @cons e e' rest rest' hsame _ ih =>
    rw [List.find?_cons, List.find?_cons, hsame.1]
    cases e.1 == oid with
    | true => exact Option.Rel.some hsame.2
    | false => exact ih

/-- A group with one entry is read the same in both orders. -/
theorem Reordered.lookup {entries entries' : List (Subject × CurrentGroup)}
    (h : Reordered entries entries') {oid : Subject}
    (honce : (entries.filter fun e => e.1 == oid).length ≤ 1) :
    Option.Rel SameGroup (Planner.lookup entries oid) (Planner.lookup entries' oid) := by
  obtain ⟨mid, hperm, hsame⟩ := h
  rw [← lookup_of_perm hperm honce]
  exact lookup_of_same hsame oid

/-- A subject that is not ambiguous has one entry of each kind. -/
theorem once_of_unambiguous {α : Type} {entries : List (Subject × α)} {text : α → String}
    {objects : List (Subject × String)}
    (hsub : (entries.map fun e => (e.1, text e.2)).Sublist objects)
    (hspelled : ∀ e ∈ entries, ∀ e' ∈ entries, e.1 = e'.1 → text e.2 = text e'.2) {oid : Subject}
    (h : ¬Ambiguous objects oid) : (entries.filter fun e => e.1 == oid).length ≤ 1 := by
  by_contra htwice
  rw [not_le] at htwice
  refine h ?_
  obtain ⟨e, he⟩ := List.exists_mem_of_length_pos (Nat.lt_of_lt_of_le Nat.zero_lt_one htwice.le)
  obtain ⟨hmem, hkey⟩ := List.mem_filter.mp he
  rw [beq_iff_eq] at hkey
  refine ⟨text e.2, ?_, ?_⟩
  · rw [← hkey]
    exact hsub.subset (List.mem_map.mpr ⟨e, hmem, rfl⟩)
  · have hall : ∀ x ∈ (entries.filter fun e => e.1 == oid).map (fun e => text e.2),
        x = text e.2 := by
      intro x hx
      obtain ⟨e', he', rfl⟩ := List.mem_map.mp hx
      obtain ⟨hmem', hkey'⟩ := List.mem_filter.mp he'
      rw [beq_iff_eq] at hkey'
      exact hspelled e' hmem' e hmem (hkey'.trans hkey.symm)
    have hcount : ((entries.filter fun e => e.1 == oid).map fun e => text e.2).count (text e.2) =
        (entries.filter fun e => e.1 == oid).length := by
      rw [List.count_eq_length.mpr (fun x hx => (hall x hx).symm), List.length_map]
    have hinner : ((entries.filter fun e => e.1 == oid).map fun e => text e.2).Sublist
        (objects.map Prod.snd) := by
      have houter := hsub.map Prod.snd
      rw [List.map_map] at houter
      exact (List.filter_sublist.map _).trans houter
    have hle := hinner.count_le (text e.2)
    omega

/-- The identities are the same in both orders. -/
theorem Reread.identified {current current' : Current} (h : Reread current current') :
    (identified current).Perm (identified current') := by
  refine (h.users.map _).append (h.groups.map ?_)
  intro e e' he
  rw [he.1, he.2.identity]

/-- The ambiguous subjects are the same in both orders. -/
theorem ambiguous_perm {objects objects' : List (Subject × String)} (h : objects.Perm objects')
    (oid : Subject) : Ambiguous objects' oid ↔ Ambiguous objects oid := by
  unfold Ambiguous
  simp only [h.mem_iff, (h.map Prod.snd).count_eq]

/-- One identity names one subject in both orders. -/
theorem oneSubject_perm {objects objects' : List (Subject × String)} (h : objects.Perm objects')
    (hone : OneSubject objects) : OneSubject objects' := by
  intro o ho o' ho'
  exact hone o (h.mem_iff.mpr ho) o' (h.mem_iff.mpr ho')

/-- The carriers of a role marker are the same in both orders. -/
theorem Reread.carriers {current current' : Current} (h : Reread current current')
    (role : String) : (carriers current role).Perm (Planner.carriers current' role) := by
  unfold Planner.carriers
  refine (h.groups.filter ?_).map fun e e' he => he.1
  intro e e' he
  rw [he.2.markers]

/-- The names of the same subjects are the same in both orders. -/
theorem Reread.dnsOf {current current' : Current} (h : Reread current current')
    {oids oids' : List Subject} (hoids : ∀ oid, oid ∈ oids' ↔ oid ∈ oids) (dn : String) :
    dn ∈ dnsOf current' oids' ↔ dn ∈ Planner.dnsOf current oids := by
  have hcontains : ∀ oid, oids'.contains oid = oids.contains oid := by
    intro oid
    rw [Bool.eq_iff_iff, List.contains_iff_mem, List.contains_iff_mem]
    exact hoids oid
  have hgroups : ((current.groups.filter fun e => oids.contains e.1).map fun e => e.2.dn).Perm
      ((current'.groups.filter fun e => oids.contains e.1).map fun e => e.2.dn) := by
    refine (h.groups.filter ?_).map fun e e' he => he.2.dn
    intro e e' he
    rw [he.1]
  have husers : ((current.users.filter fun e => oids.contains e.1).map fun e => e.2.dn).Perm
      ((current'.users.filter fun e => oids.contains e.1).map fun e => e.2.dn) :=
    (h.users.filter _).map _
  unfold Planner.dnsOf
  simp only [hcontains]
  exact (husers.append hgroups).mem_iff.symm

section Tables

variable [UnicodeTables]

/-- Two readings of one directory are one scene. -/
theorem Reread.scene {desired : Desired} {current current' : Current} {ctx : PlanCtx}
    {sc sc' : Scan} (h : Reread current current') (hlegible : Legible current)
    (hsc : Scanned current (Planner.identified current) sc)
    (hsc' : Scanned current' (Planner.identified current') sc') :
    SameScene (sceneOf desired current ctx sc) (sceneOf desired current' ctx sc') := by
  have hdupes : ∀ oid, oid ∈ sc'.dupes ↔ oid ∈ sc.dupes := by
    intro oid
    rw [hsc'.dupes, hsc.dupes]
    exact ambiguous_perm h.identified oid
  refine ⟨rfl, rfl, ?_, hdupes, h.dnsOf hdupes, ?_, ?_, ?_, ?_⟩
  · change (!_) = (!_)
    congr 1
    rw [Bool.eq_iff_iff, List.contains_iff_mem, List.contains_iff_mem]
    exact (h.carriers roleAdmission).mem_iff.symm
  · intro oid hfree
    refine lookup_of_perm h.users ?_
    exact @once_of_unambiguous _ _ CurrentUser.identity _ (List.sublist_append_left _ _)
      hlegible.users oid (mt (hsc.dupes oid).mpr hfree)
  · intro oid hfree
    refine h.groups.lookup ?_
    exact @once_of_unambiguous _ _ CurrentGroup.identity _ (List.sublist_append_right _ _)
      hlegible.groups oid (mt (hsc.dupes oid).mpr hfree)
  · exact (mergeSort_texts (h.users.map Prod.fst)).symm
  · exact (mergeSort_texts (h.groups.map fun e e' he => he.1)).symm

/-- Every group a role marker is to be taken off is the only one with its subject. -/
def RolesApart (current : Current) (ctx : PlanCtx) : Prop :=
  ∀ e ∈ current.groups, e.2.markers.contains roleAdmission = true ∧ e.1 ≠ ctx.admission ∨
      e.2.markers.contains roleDeviceGrant = true ∧ (∃ oid, ctx.grant = some oid ∧ e.1 ≠ oid) →
    (current.groups.filter fun o => o.1 == e.1).length ≤ 1

omit [UnicodeTables] in
/-- A role marker is taken off the same groups in both orders. -/
theorem Reread.sameCarriers {current current' : Current} {role : String} {keep : Subject}
    (h : Reread current current')
    (honce : ∀ e ∈ current.groups, e.2.markers.contains role = true → e.1 ≠ keep →
      (current.groups.filter fun o => o.1 == e.1).length ≤ 1) :
    SameCarriers current current' role keep := by
  refine ⟨h.carriers role, ?_⟩
  intro oid hoid hkeep
  obtain ⟨e, he, rfl⟩ := List.mem_map.mp hoid
  obtain ⟨hmem, hcarries⟩ := List.mem_filter.mp he
  obtain ⟨cg, hcg⟩ := lookup_isSome hmem
  have hrel := h.groups.lookup (honce e hmem hcarries hkeep)
  rw [hcg] at hrel
  generalize hcg' : lookup current'.groups e.1 = found at hrel
  cases hrel with
  | some hsame => exact ⟨cg, _, hcg, rfl, hsame⟩

/-- The loops start from two plans made alike. -/
theorem Reread.opening {current current' : Current} {p p' : Planning} {sc sc' : Scan}
    (h : Reread current current') (hdnOf : p'.dnOf = p.dnOf) :
    Matched (opening current sc p) (opening current' sc' p') (opening current sc p)
      (Planner.opening current' sc' p') := by
  have hdns : (current.groups.map fun e => e.2.dn).Perm (current'.groups.map fun e => e.2.dn) :=
    h.groups.map fun e e' he => he.2.dn
  have hsams : (current.groups.map fun e => fold e.2.sam).Perm
      (current'.groups.map fun e => fold e.2.sam) := by
    refine h.groups.map ?_
    intro e e' he
    rw [he.2.sam]
  refine matched_start hdnOf ?_ ?_
  · intro dn
    exact (((h.users.map _).append hdns).append h.unmanagedDns).mem_iff.symm
  · intro key
    exact (((h.foreignSams.map _).append (h.users.map _)).append hsams).mem_iff.symm

end Tables

/-- The operations take a role marker off groups. -/
def ClearsRole (role : String) (ops : List Op) : Prop := ∀ op ∈ ops, ∃ dn, op = .clearMarker dn role

/-- The names of the objects with an ambiguous subject. -/
def NamesAmbiguous (current : Current) (dn : String) : Prop :=
  ∃ o ∈ managedObjects current, Ambiguous (identified current) o.1 ∧ o.2 = dn

/-- A report of two objects with one identity, each of them ambiguous. -/
def ReportsTwins (current : Current) (text : String) : Prop :=
  ∃ dn prevDn, NamesAmbiguous current dn ∧ NamesAmbiguous current prevDn ∧
    text = twinReport dn prevDn

/-- Two plans are one plan, but for the order of the role markers taken off, for the
reports on objects with one identity, and for the order in which an alert lists carriers. -/
structure SamePlan [UnicodeTables] (current : Current) (plan plan' : Plan) : Prop where
  ops : ∃ stale stale' work clears clears' rest, plan.ops = stale ++ work ++ clears ++ rest ∧
    plan'.ops = stale' ++ work ++ clears' ++ rest ∧ stale.Perm stale' ∧ clears.Perm clears' ∧
    ClearsRole roleAdmission stale ∧ ClearsRole roleDeviceGrant clears
  conflicts : ∃ twins twins' foreign foreign' texts,
    plan.conflicts = twins ++ foreign ++ texts ∧ plan'.conflicts = twins' ++ foreign' ++ texts ∧
    twins.length = twins'.length ∧ (∀ text ∈ twins ++ twins', ReportsTwins current text) ∧
    foreign.Perm foreign'
  alerts : List.Forall₂ SameAlert plan.alerts plan'.alerts

/-- A name is one of those of some subjects when a managed object with one holds it. -/
theorem mem_dnsOf {current : Current} {oids : List Subject} {dn : String} :
    dn ∈ dnsOf current oids ↔ ∃ o ∈ managedObjects current, o.1 ∈ oids ∧ o.2 = dn := by
  unfold dnsOf managedObjects
  simp only [List.mem_append, List.mem_map, List.mem_filter, List.contains_iff_mem]
  constructor
  · rintro (⟨e, ⟨he, hoid⟩, rfl⟩ | ⟨e, ⟨he, hoid⟩, rfl⟩)
    · exact ⟨(e.1, e.2.dn), Or.inl ⟨e, he, rfl⟩, hoid, rfl⟩
    · exact ⟨(e.1, e.2.dn), Or.inr ⟨e, he, rfl⟩, hoid, rfl⟩
  · rintro ⟨_, ⟨e, he, rfl⟩ | ⟨e, he, rfl⟩, hoid, rfl⟩
    · exact Or.inl ⟨e, ⟨he, hoid⟩, rfl⟩
    · exact Or.inr ⟨e, ⟨he, hoid⟩, rfl⟩

/-- The scan names ambiguous objects. -/
theorem Scanned.names {current : Current} {sc : Scan}
    (h : Scanned current (identified current) sc) {dn : String}
    (hdn : dn ∈ dnsOf current sc.dupes) :
    NamesAmbiguous current dn := by
  obtain ⟨o, ho, hdupe, heq⟩ := mem_dnsOf.mp hdn
  exact ⟨o, ho, (h.dupes o.1).mp hdupe, heq⟩

/-- Two scans of one directory report objects with one identity equally often. -/
theorem Reread.reports {current current' : Current} {sc sc' : Scan} (h : Reread current current')
    (hsc : Scanned current (Planner.identified current) sc)
    (hsc' : Scanned current' (Planner.identified current') sc') :
    sc.conflicts.length = sc'.conflicts.length := by
  have hset : ((Planner.identified current).map Prod.snd).toFinset =
      ((Planner.identified current').map Prod.snd).toFinset :=
    List.toFinset_eq_of_perm _ _ (h.identified.map Prod.snd)
  have hlen := h.identified.length_eq
  have hfirst := hsc.reports
  have hsecond := hsc'.reports
  rw [hset] at hfirst
  omega

/-- Every report of either scan is about ambiguous objects. -/
theorem Reread.twins {current current' : Current} {sc sc' : Scan} (h : Reread current current')
    (hsc : Scanned current (Planner.identified current) sc)
    (hsc' : Scanned current' (Planner.identified current') sc') :
    ∀ text ∈ sc.conflicts ++ sc'.conflicts, ReportsTwins current text := by
  have hdupes : ∀ oid, oid ∈ sc'.dupes ↔ oid ∈ sc.dupes := by
    intro oid
    rw [hsc'.dupes, hsc.dupes]
    exact ambiguous_perm h.identified oid
  intro text htext
  rcases List.mem_append.mp htext with hfirst | hsecond
  · obtain ⟨dn, prevDn, hdn, hprevDn, heq⟩ := hsc.texts text hfirst
    exact ⟨dn, prevDn, hsc.names hdn, hsc.names hprevDn, heq⟩
  · obtain ⟨dn, prevDn, hdn, hprevDn, heq⟩ := hsc'.texts text hsecond
    rw [h.dnsOf hdupes] at hdn hprevDn
    exact ⟨dn, prevDn, hsc.names hdn, hsc.names hprevDn, heq⟩

section Orders

variable [UnicodeTables]

/-- Planning is frozen in both orders or in neither, for one reason. -/
theorem Reread.freeze {desired : Desired} {current current' : Current} {ctx : PlanCtx}
    (h : Reread current current') : freeze desired current' ctx = freeze desired current ctx := by
  have hsome : current'.users ≠ [] ↔ current.users ≠ [] := by
    rw [← List.length_pos_iff, ← List.length_pos_iff, h.users.length_eq]
  have hsynchronized : (current'.users.map Prod.fst).dedup.length =
      (current.users.map Prod.fst).dedup.length :=
    ((h.users.map Prod.fst).dedup.length_eq).symm
  unfold Planner.freeze
  rw [hsynchronized]
  simp only [hsome]

/-- What is taken off first is taken off in both orders, or both readings end as a panic. -/
theorem Reread.stalePass {current current' : Current} {ctx : PlanCtx}
    (h : Reread current current') (hroles : RolesApart current ctx) :
    EndAlike SameStop (Cleared roleAdmission {} {}) (stalePass current ctx)
      (Planner.stalePass current' ctx) := by
  have hsame : SameCarriers current current' roleAdmission ctx.admission :=
    h.sameCarriers fun e he hcarries hkeep => hroles e he (Or.inl ⟨hcarries, hkeep⟩)
  unfold Planner.stalePass
  refine clearRoles_alike (hsame.carriers.filter _) ?_ {} {}
  intro oid hoid
  obtain ⟨hmem, hne⟩ := List.mem_filter.mp hoid
  exact hsame.groups oid hmem (of_decide_eq_true hne)

/-- What both plans go on from is what they report. -/
theorem samePlan_of_concluded {current current' : Current} {p p' q q' : Planning} {sc sc' : Scan}
    (h : Reread current current')
    (hsc : Scanned current (Planner.identified current) sc)
    (hsc' : Scanned current' (Planner.identified current') sc')
    (hclear : Cleared roleAdmission {} {} p p')
    (hend : Concluded (opening current sc p) (opening current' sc' p') q q') :
    SamePlan current q.plan q'.plan := by
  obtain ⟨stale, stale', rfl, rfl, hstale, hroles⟩ := hclear
  obtain ⟨work, clears, clears', rest, hq, hq', hperm, hclears⟩ := hend.planned
  obtain ⟨texts, ht, ht'⟩ := hend.conflicts
  obtain ⟨more, more', ha, ha', hmore⟩ := hend.alerts
  have hops : ∀ {role : String} {es : List Planned}, (∀ e ∈ es, ∃ dn, e.op = .clearMarker dn role) →
      ClearsRole role (es.map Planned.op) := by
    intro role es hes op hop
    obtain ⟨e, he, rfl⟩ := List.mem_map.mp hop
    exact hes e he
  refine ⟨⟨stale.map Planned.op, stale'.map Planned.op, work.map Planned.op, clears.map Planned.op,
      clears'.map Planned.op, rest.map Planned.op, ?_, ?_, hstale.map _, hperm.map _, hops hroles,
      hops hclears⟩,
    ⟨sc.conflicts, sc'.conflicts, current.unmanagedDns.map _, current'.unmanagedDns.map _, texts,
      ht, ht', h.reports hsc hsc', h.twins hsc hsc', h.unmanagedDns.map _⟩, ?_⟩
  · change q.planned.map Planned.op = _
    rw [hq]
    simp [opening]
  · change q'.planned.map Planned.op = _
    rw [hq']
    simp [opening]
  · change List.Forall₂ SameAlert q.alerts q'.alerts
    rw [ha, ha']
    exact hmore

end Orders

/-- The group the configuration names, as it was read. -/
def keptGroup : Subject × CurrentGroup :=
  (namedGroup, ⟨"CN=adm,OU=idp,DC=x", "adm", "adm", [], [roleAdmission],
    "kb1|idp|11111111-1111-1111-1111-111111111111"⟩)

/-- The first of two groups with one identity. -/
def firstTwin : Subject × CurrentGroup :=
  (twinGroup, ⟨"CN=one,OU=idp,DC=x", "one", "one", [], [],
    "kb1|idp|33333333-3333-3333-3333-333333333333"⟩)

/-- The second of them. -/
def secondTwin : Subject × CurrentGroup :=
  (twinGroup, ⟨"CN=two,OU=idp,DC=x", "two", "two", [], [],
    "kb1|idp|33333333-3333-3333-3333-333333333333"⟩)

/-- A unit with two groups that hold one identity, read in one order or the other. -/
def pairCurrent (swapped : Bool) : Current where
  groups :=
    if swapped then [keptGroup, secondTwin, firstTwin] else [keptGroup, firstTwin, secondTwin]

/-- The report on the two, which names the one read last. -/
def pairReport (swapped : Bool) : String :=
  if swapped then twinReport "CN=one,OU=idp,DC=x" "CN=one,OU=idp,DC=x"
  else twinReport "CN=two,OU=idp,DC=x" "CN=two,OU=idp,DC=x"

/-- The scan of the unit. -/
def pairScan (swapped : Bool) : Scan where
  seen := [("kb1|idp|33333333-3333-3333-3333-333333333333", twinGroup),
    ("kb1|idp|33333333-3333-3333-3333-333333333333", twinGroup),
    ("kb1|idp|11111111-1111-1111-1111-111111111111", namedGroup)]
  dupes := [twinGroup, twinGroup]
  conflicts := [pairReport swapped]

def pairScene (swapped : Bool) : @Scene asciiTables :=
  @sceneOf asciiTables twinDesired (pairCurrent swapped) twinCtx (pairScan swapped)

theorem pairTurns_eq (swapped : Bool) : @turns asciiTables (pairScene swapped) = twinTurns := by
  let _ := asciiTables
  have husers : (pairScene swapped).desired.users.toList = [] := rfl
  have hgroups : (pairScene swapped).desired.groups.toList = [(namedGroup, ⟨"adm"⟩)] := rfl
  have hmembers : (pairScene swapped).desired.membership.toList = [] := rfl
  have hleavers : sortedOids (pairScene swapped).current.users = [] := List.mergeSort_nil
  have hgone : sortedOids (pairScene swapped).current.groups =
      [namedGroup, twinGroup, twinGroup] := by
    cases swapped with
    | false =>
      refine List.mergeSort_of_pairwise ?_
      decide
    | true =>
      refine List.mergeSort_of_pairwise ?_
      decide
  unfold turns
  rw [husers, hgroups, hmembers, hleavers, hgone]
  rfl

/-- The plan that is made for the unit reports the two groups, and does nothing. -/
theorem pair_planned (swapped : Bool) :
    @planSync asciiTables twinDesired (pairCurrent swapped) twinCtx =
      .ok ⟨[], [pairReport swapped], []⟩ := by
  let _ := asciiTables
  have hfreeze : freeze twinDesired (pairCurrent swapped) twinCtx = none := by
    unfold freeze
    have hmem : twinCtx.admission ∈ twinDesired.groups := by simp [twinDesired, twinCtx]
    have hsome : ¬(twinDesired.users.isEmpty ∧ (pairCurrent swapped).users ≠ []) := by
      simp [pairCurrent]
    rw [if_neg (not_not.mpr hmem), if_neg hsome]
  have hstale : stalePass (pairCurrent swapped) twinCtx = .ok {} := by
    have hnames : (carriers (pairCurrent swapped) roleAdmission).filter (· ≠ twinCtx.admission) =
        [] := by cases swapped <;> decide
    unfold stalePass
    rw [hnames]
    rfl
  have hscan : scan (pairCurrent swapped) = .ok (pairScan swapped) := by cases swapped <;> rfl
  have hdupe : twinGroup ∈ (pairScene swapped).dupes := List.mem_cons_self
  have hcheck : ∀ p, turn (pairScene swapped) p .collisions = .ok p := by
    intro p
    cases swapped <;> rfl
  have hkept : ∀ p, turn (pairScene swapped) p (.groupLeaver namedGroup) = .ok p := fun _ => rfl
  have hfrozen : ∀ p, turn (pairScene swapped) p (.groupLeaver twinGroup) = .ok p := by
    intro p
    change groupLeaver (pairScene swapped) p twinGroup = _
    unfold groupLeaver
    rw [if_pos (Or.inr hdupe)]
  have hgrant : ∀ p, turn (pairScene swapped) p .grant = .ok p := by
    intro p
    cases swapped <;> rfl
  have hnamed : ∀ p, turn (pairScene swapped) p (.group (namedGroup, ⟨"adm"⟩)) =
      .ok (p.locate namedGroup "CN=adm,OU=idp,DC=x") := by
    intro p
    have hcg : lookup (pairScene swapped).current.groups namedGroup = some keptGroup.2 := by
      cases swapped <;> decide
    have hfree : namedGroup ∉ (pairScene swapped).dupes := by cases swapped <;> decide
    have hmarked : (pairScene swapped).unmarked = false := by cases swapped <;> decide
    have hquar : startsWith roleAdmission stQuar = false := by decide
    change groupTurn (pairScene swapped) p _ = _
    simp [groupTurn, hfree, hcg, existingGroup, hasMarker, Planning.onlyIf, hmarked, hquar,
      keptGroup]
    rfl
  unfold planSync planning
  rw [hfreeze]
  dsimp only
  rw [hstale, ok_bind, hscan, ok_bind, passes_eq]
  change (((turns (pairScene swapped)).foldlM (turn (pairScene swapped)) _).map _) = _
  rw [pairTurns_eq]
  unfold twinTurns
  simp only [List.foldlM_cons, List.foldlM_nil, ok_bind, hcheck, hnamed, hkept, hfrozen, hgrant]
  rfl

/-- The unit is one directory, read in two orders. -/
theorem pair_reread : Reread (pairCurrent false) (pairCurrent true) := by
  have hsame : ∀ entries : List (Subject × CurrentGroup), List.Forall₂ SameEntry entries entries :=
    fun entries => List.forall₂_same.mpr fun e _ => ⟨rfl, rfl, rfl, rfl, .refl _, rfl, rfl⟩
  exact ⟨.nil, ⟨_, .cons _ (.swap _ _ _), hsame _⟩, .nil, .nil⟩

end Kerbridge.Planner

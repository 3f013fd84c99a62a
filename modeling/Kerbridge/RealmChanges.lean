import Mathlib.Logic.Function.Basic
import Kerbridge.RealmDirectory

/-!
# Objects that are made, changed and renamed

The three requests a client changes the realm directory by: a new object, a change to the
values of one attribute of one object, and a new first component for an object's name. Each
is carried out whole or refused with a reason. A renamed object keeps its place in the list
of entries, and its new name is followed wherever another object names it. What else makes
a server refuse is not told apart here from a request that never arrived.
-/

namespace Kerbridge.RealmChanges

open LdapFilter RealmDirectory

/-- The attributes whose values name objects. -/
def linkAttrs : List String := ["member", "memberOf", "managedBy", "managedObjects"]

/-- The attributes the server alone writes, as the other ends of links. -/
def backLinks : List String := ["memberOf", "managedObjects"]

/-- One change to the values of an attribute. -/
inductive Change where
  /-- One value more, refused where the value is there. -/
  | add (attr value : String)
  /-- Values in place of all; with none the attribute goes. -/
  | replace (attr : String) (values : List String)
  /-- Values that go, refused where one of them is not there. -/
  | delete (attr : String) (values : List String)
  deriving DecidableEq

/-- The attribute of a change. -/
def Change.attr : Change → String
  | .add attr _ => attr
  | .replace attr _ => attr
  | .delete attr _ => attr

/-- Whether a value is among those an object holds, by the server's comparison. -/
def Holds (server : Server) (attr : String) (held : List String) (value : String) : Bool :=
  held.any (server.equal attr (utf8 value.toList))

/-- The values after a change. -/
def Change.values (server : Server) (held : List String) : Change → Except String (List String)
  | .add attr value =>
    if Holds server attr held value then .error "attributeOrValueExists" else .ok (held ++ [value])
  | .replace _ values => .ok values
  | .delete attr values =>
    if values.all (Holds server attr held) then
      .ok (held.filter fun v => !values.any fun w => server.equal attr (utf8 w.toList) v)
    else .error "noSuchAttribute"

/-- An object's attributes after a change. A back-link is the server's to write. -/
def changed (server : Server) (c : Change) (attrs : String → List String) :
    Except String (String → List String) :=
  if c.attr ∈ backLinks then .error "unwillingToPerform"
  else (c.values server (attrs c.attr)).map (Function.update attrs c.attr)

/-- How a server names an object that gets another first component; none when it takes no
such component. -/
structure Naming (server : Server) where
  named : String → String → Option String

/-- The values of an attribute when an object gets another name. -/
def followed (server : Server) (old new attr : String) (values : List String) : List String :=
  if attr ∈ linkAttrs then values.map fun v => if server.sameDn old v then new else v else values

/-- An object when one of the realm gets another name. -/
def renamedEntry (server : Server) (old new : String) (o : Entry) : Entry where
  dn := if server.sameDn o.dn old then new else o.dn
  attrs := fun attr => followed server old new attr (o.attrs attr)
  binAttrs := o.binAttrs

section Changes

variable {server : Server}

/-- An attribute that is no link does not follow a new name. -/
theorem followed_other {old new attr : String} {values : List String} (h : attr ∉ linkAttrs) :
    followed server old new attr values = values := if_neg h

/-- A value that is added was not there, and stands behind the others. -/
theorem values_add {attr value : String} {held vs : List String}
    (h : (Change.add attr value).values server held = .ok vs) :
    Holds server attr held value = false ∧ vs = held ++ [value] := by
  rw [Change.values] at h
  split at h
  · cases h
  · rename_i hnew
    cases h
    exact ⟨by simpa using hnew, rfl⟩

/-- Values that are taken out were there, and those that are not one of them stay. -/
theorem values_delete {attr : String} {values held vs : List String}
    (h : (Change.delete attr values).values server held = .ok vs) :
    (∀ w ∈ values, Holds server attr held w = true) ∧
      vs = held.filter fun v => !values.any fun w => server.equal attr (utf8 w.toList) v := by
  rw [Change.values] at h
  split at h
  · rename_i hall
    cases h
    exact ⟨List.all_eq_true.mp hall, rfl⟩
  · cases h

/-- A change writes the values of its own attribute, which is no back-link. -/
theorem changed_ok {c : Change} {attrs attrs' : String → List String}
    (h : changed server c attrs = .ok attrs') : c.attr ∉ backLinks ∧
      ∃ vs, c.values server (attrs c.attr) = .ok vs ∧ attrs' = Function.update attrs c.attr vs := by
  unfold changed at h
  split at h
  · cases h
  · rename_i hattr
    cases hvs : c.values server (attrs c.attr) with
    | error why =>
      rw [hvs] at h
      cases h
    | ok vs =>
      rw [hvs] at h
      cases h
      exact ⟨hattr, vs, rfl, rfl⟩

/-- A change leaves the other attributes alone. -/
theorem changed_other {c : Change} {attrs attrs' : String → List String}
    (h : changed server c attrs = .ok attrs') {attr : String} (hattr : attr ≠ c.attr) :
    attrs' attr = attrs attr := by
  obtain ⟨_, vs, _, rfl⟩ := changed_ok h
  exact Function.update_of_ne hattr vs attrs

/-- The accounts an object manages are links. -/
theorem managedObjects_link : "managedObjects" ∈ linkAttrs := by decide

/-- No change writes the accounts an object manages. -/
theorem managedObjects_kept {c : Change} {attrs attrs' : String → List String}
    (h : changed server c attrs = .ok attrs') :
    attrs' "managedObjects" = attrs "managedObjects" := by
  refine changed_other h ?_
  intro hattr
  have hback : "managedObjects" ∈ backLinks := by decide
  rw [hattr] at hback
  exact (changed_ok h).1 hback

/-- Whether two names are one does not depend on their order. -/
theorem sameDn_comm (a b : String) : server.sameDn a b = server.sameDn b a := by
  have hsymm : ∀ a b, server.sameDn a b = true → server.sameDn b a = true := fun a b h =>
    server.sameDn_of_common _ _ _ (server.sameDn_self b) h
  apply Bool.eq_iff_iff.mpr
  exact ⟨hsymm a b, hsymm b a⟩

/-- Two spellings of one name are another spelling's together. -/
theorem sameDn_trans {a b c : String} (h : server.sameDn a b = true)
    (h' : server.sameDn b c = true) : server.sameDn a c = true := by
  rw [sameDn_comm] at h'
  exact server.sameDn_of_common _ _ _ h h'

/-- Two spellings of one name are the same as any name together. -/
theorem sameDn_congr {a b c : String} (h : server.sameDn a b = true) :
    server.sameDn a c = server.sameDn b c := by
  apply Bool.eq_iff_iff.mpr
  constructor
  · intro hac
    rw [sameDn_comm] at h
    exact sameDn_trans h hac
  · intro hbc
    exact sameDn_trans h hbc

end Changes

variable {server : Server}

/-- A new object, under a name no object holds. -/
def add (r : Realm server) (dn : String) (attrs : List (String × List String)) :
    Except String (Realm server) :=
  if hfree : r.entries.any (fun o => server.sameDn o.dn dn) = true then .error "entryAlreadyExists"
  else if hlinks : (attrs.lookup "managedObjects").isSome = true then .error "unwillingToPerform"
  else .ok {
    entries := r.entries ++
      [⟨dn, fun attr => (attrs.lookup attr).getD [], fun _ => []⟩]
    distinct := by
      refine List.pairwise_append.mpr ⟨r.distinct, List.pairwise_singleton _ _, ?_⟩
      intro o ho n hn
      rw [List.mem_singleton.mp hn]
      simp only [List.any_eq_true, not_exists, not_and] at hfree
      exact hfree o ho
    backlinks := by
      intro o ho g hg
      rcases List.mem_append.mp ho with ho | ho
      · obtain ⟨t, ht, hsame⟩ := r.backlinks o ho g hg
        exact ⟨t, List.mem_append_left _ ht, hsame⟩
      · rw [List.mem_singleton.mp ho] at hg
        simp only [Bool.not_eq_true, Option.isSome_eq_false_iff, Option.isNone_iff_eq_none] at hlinks
        have hnone : g ∈ ((attrs.lookup "managedObjects").getD []) := hg
        rw [hlinks] at hnone
        cases hnone }

/-- Objects keep names of their own when one gets other values. -/
theorem distinct_changed (r : Realm server) (dn : String) (attrs : String → List String) :
    (r.entries.map fun o => if server.sameDn o.dn dn then { o with attrs := attrs } else o).Pairwise
      fun a b => ¬ server.sameDn a.dn b.dn = true := by
  rw [List.pairwise_map]
  apply r.distinct.imp
  intro a b hab
  have hdn : ∀ o : Entry, (if server.sameDn o.dn dn = true then
      { o with attrs := attrs } else o).dn = o.dn := by
    intro o
    split
    · rfl
    · rfl
  rw [hdn a, hdn b]
  exact hab

/-- One change to the object of a name. -/
def modify (r : Realm server) (dn : String) (c : Change) : Except String (Realm server) :=
  match he : r.entries.find? fun o => server.sameDn o.dn dn with
  | none => .error "noSuchObject"
  | some e =>
    match hattrs : changed server c e.attrs with
    | .error why => .error why
    | .ok attrs => .ok {
        entries := r.entries.map fun o =>
          if server.sameDn o.dn dn then { o with attrs := attrs } else o
        distinct := distinct_changed r dn attrs
        backlinks := by
          intro o' ho' g hg
          obtain ⟨o, ho, rfl⟩ := List.mem_map.mp ho'
          have hlinks : g ∈ o.attrs "managedObjects" := by
            split at hg
            · rename_i hsame
              have hfound := List.find?_some he
              obtain rfl := r.eq_of_sameDn (List.mem_of_find?_eq_some he) ho
                (server.sameDn_of_common _ _ _ hfound hsame)
              exact managedObjects_kept hattrs ▸ hg
            · exact hg
          obtain ⟨t, ht, hsame⟩ := r.backlinks o ho g hlinks
          refine ⟨_, List.mem_map.mpr ⟨t, ht, rfl⟩, ?_⟩
          split
          · exact hsame
          · exact hsame }

/-- Another first component for the name of an object, which no other object may hold. -/
def modifyDn (naming : Naming server) (r : Realm server) (dn rdn : String) :
    Except String (Realm server) :=
  match he : r.entries.find? fun o => server.sameDn o.dn dn with
  | none => .error "noSuchObject"
  | some e =>
    match naming.named e.dn rdn with
    | none => .error "invalidDNSyntax"
    | some new =>
      if hfree : r.entries.any (fun o => server.sameDn o.dn new && !server.sameDn o.dn e.dn) = true
      then .error "entryAlreadyExists"
      else .ok {
        entries := r.entries.map (renamedEntry server e.dn new)
        distinct := by
          simp only [List.any_eq_true, Bool.and_eq_true, Bool.not_eq_true', not_exists,
            not_and] at hfree
          rw [List.pairwise_map]
          refine r.distinct.imp_of_mem ?_
          intro a b ha hb hab
          unfold renamedEntry
          dsimp only
          by_cases hae : server.sameDn a.dn e.dn = true
          · have hbe : server.sameDn b.dn e.dn = false := by
              rw [Bool.eq_false_iff]
              intro hbe
              exact hab (server.sameDn_of_common _ _ _ hae hbe)
            rw [if_pos hae, if_neg (by simp [hbe])]
            intro hsame
            rw [sameDn_comm] at hsame
            exact hfree b hb hsame hbe
          · rw [if_neg hae]
            by_cases hbe : server.sameDn b.dn e.dn = true
            · rw [if_pos hbe]
              intro hsame
              exact hfree a ha hsame (by simpa using hae)
            · rw [if_neg hbe]
              exact hab
        backlinks := by
          intro o' ho' g' hg'
          obtain ⟨o, ho, rfl⟩ := List.mem_map.mp ho'
          change g' ∈ followed server e.dn new "managedObjects" (o.attrs "managedObjects") at hg'
          unfold followed at hg'
          rw [if_pos managedObjects_link] at hg'
          obtain ⟨g, hg, rfl⟩ := List.mem_map.mp hg'
          obtain ⟨t, ht, hsame⟩ := r.backlinks o ho g hg
          by_cases hgo : server.sameDn e.dn g = true
          · rw [if_pos hgo]
            refine ⟨_, List.mem_map.mpr ⟨e, List.mem_of_find?_eq_some he, rfl⟩, ?_⟩
            unfold renamedEntry
            dsimp only
            rw [if_pos (server.sameDn_self _)]
            exact server.sameDn_self _
          · rw [if_neg hgo]
            refine ⟨_, List.mem_map.mpr ⟨t, ht, rfl⟩, ?_⟩
            unfold renamedEntry
            dsimp only
            rw [if_neg]
            · exact hsame
            · intro hte
              rw [sameDn_comm] at hte
              exact hgo (sameDn_trans hte hsame) }

/-- The object that is made of the attributes of a request. -/
def newEntry (dn : String) (attrs : List (String × List String)) : Entry :=
  ⟨dn, fun attr => (attrs.lookup attr).getD [], fun _ => []⟩

/-- A new object stands behind the others, under a name none of them holds. -/
theorem add_ok {r r' : Realm server} {dn : String} {attrs : List (String × List String)}
    (h : add r dn attrs = .ok r') :
    (∀ o ∈ r.entries, server.sameDn o.dn dn = false) ∧
      r'.entries = r.entries ++ [newEntry dn attrs] := by
  unfold add at h
  split at h
  · cases h
  · rename_i hfree
    split at h
    · cases h
    · cases h
      refine ⟨?_, rfl⟩
      simpa using hfree

/-- A change that is made writes the attributes of the object of its name, and nothing
else. -/
theorem modify_ok {r r' : Realm server} {dn : String} {c : Change} (h : modify r dn c = .ok r') :
    ∃ e ∈ r.entries, server.sameDn e.dn dn = true ∧ ∃ attrs f, changed server c e.attrs = .ok attrs ∧
      r'.entries = r.entries.map f ∧ f e = { e with attrs := attrs } ∧
      ∀ o ∈ r.entries, o ≠ e → f o = o := by
  unfold modify at h
  split at h
  · cases h
  · rename_i e hfind
    split at h
    · cases h
    · rename_i attrs hattrs
      cases h
      have he := List.mem_of_find?_eq_some hfind
      have hsame : server.sameDn e.dn dn = true := by
        have hfound := List.find?_some hfind
        exact hfound
      refine ⟨e, he, hsame, attrs, _, hattrs, rfl, if_pos hsame, ?_⟩
      intro o ho hne
      apply if_neg
      intro hdn
      exact hne (r.eq_of_sameDn ho he (server.sameDn_of_common _ _ _ hdn hsame))

/-- A rename that is made gives the object of a name another, which no other object holds,
and follows it wherever it stands. -/
theorem modifyDn_ok {naming : Naming server} {r r' : Realm server} {dn rdn : String}
    (h : modifyDn naming r dn rdn = .ok r') :
    ∃ e ∈ r.entries, server.sameDn e.dn dn = true ∧ ∃ new, naming.named e.dn rdn = some new ∧
      (∀ o ∈ r.entries, o ≠ e → server.sameDn o.dn new = false) ∧
      r'.entries = r.entries.map (renamedEntry server e.dn new) := by
  unfold modifyDn at h
  split at h
  · cases h
  · rename_i e hfind
    split at h
    · cases h
    · rename_i new hnew
      split at h
      · cases h
      · rename_i hfree
        cases h
        have he := List.mem_of_find?_eq_some hfind
        have hsame : server.sameDn e.dn dn = true := by
          have hfound := List.find?_some hfind
          exact hfound
        refine ⟨e, he, hsame, new, hnew, ?_, rfl⟩
        intro o ho hne
        rw [Bool.eq_false_iff]
        intro hon
        simp only [List.any_eq_true, Bool.and_eq_true, Bool.not_eq_true', not_exists,
          not_and, Bool.not_eq_false] at hfree
        exact hne (r.eq_of_sameDn ho he (hfree o ho hon))

end Kerbridge.RealmChanges

import Mathlib.Logic.Relation
import Mathlib.Data.List.Pairwise
import Kerbridge.LdapFilter
import Kerbridge.StoredIdentity

/-!
# The realm directory, as a search reads it

Entries with their attributes, and the server that answers searches over them.
The server's own rules are parameters: how it compares values and names, what
lies under a base, and transitive membership, which it evaluates itself.
-/

namespace Kerbridge.RealmDirectory

open UnicodeText StoredIdentity LdapFilter

/-- One directory object. -/
structure Entry where
  dn : String
  /-- The values of a text attribute, in the order the server returns them. -/
  attrs : String → List String
  /-- The values of an attribute that are no text. -/
  binAttrs : String → List (List UInt8)

/-- An object is a direct member of a group. -/
def MemberOf (entries : List Entry) (dn group : String) : Prop :=
  ∃ e ∈ entries, e.dn = dn ∧ group ∈ e.attrs "memberOf"

/-- The matching rule a server evaluates nested membership by. -/
def inChainRule : String := "1.2.840.113556.1.4.1941"

/-- What a directory server decides by its own rules. -/
structure Server where
  /-- Whether a stored value equals an asserted one, by the attribute's syntax. -/
  equal : String → Octets → String → Bool
  /-- Whether a stored value fits a pattern of several pieces. -/
  fits : String → List Octets → String → Bool
  /-- Whether two names are one. -/
  sameDn : String → String → Bool
  /-- Whether a name lies at or under a base. -/
  within : String → String → Bool
  /-- Whether an object is in a group through any nesting. -/
  inChain : List Entry → String → Octets → Bool
  /-- Names differ by more than letter case. -/
  sameDn_of_case : ∀ a b, eqIgnoreAsciiCase a b = true → sameDn a b = true
  /-- Two spellings of one name stand for each other. -/
  sameDn_of_common : ∀ a b c, sameDn a c = true → sameDn b c = true → sameDn a b = true
  /-- Nested membership is the transitive closure of membership. -/
  inChain_iff : ∀ entries dn group, inChain entries dn (utf8 group.toList) = true ↔
    Relation.TransGen (MemberOf entries) dn group

/-- A directory: its entries have names of their own, and a back-link names an entry. -/
structure Realm (server : Server) where
  entries : List Entry
  distinct : entries.Pairwise fun a b => ¬ server.sameDn a.dn b.dn = true
  backlinks : ∀ e ∈ entries, ∀ g ∈ e.attrs "managedObjects",
    ∃ o ∈ entries, server.sameDn o.dn g = true

/-- How far below its base a search looks. -/
inductive Scope where
  | base
  | subtree

variable {server : Server}

/-- How an entry answers one item of a filter. -/
def Realm.answers (r : Realm server) (e : Entry) (attr : String) (rule : Option String)
    (pattern : List Octets) : Bool :=
  match rule, pattern with
  | none, [value] => (e.attrs attr).any (server.equal attr value)
  | none, pieces => (e.attrs attr).any (server.fits attr pieces)
  | some rule, [value] =>
    rule == inChainRule && attr == "memberOf" && server.inChain r.entries e.dn value
  | some _, _ => false

/-- One search. A base that is not there is refused at base scope, and holds
nothing below it at subtree scope. -/
def Realm.search (r : Realm server) (base : String) (scope : Scope) (filter : String) :
    Except String (List Entry) :=
  match parse filter with
  | none => .error "filter is not well formed"
  | some f =>
    match scope with
    | .subtree =>
      .ok (r.entries.filter fun e => server.within e.dn base && f.holds (r.answers e))
    | .base =>
      match r.entries.find? fun e => server.sameDn e.dn base with
      | none => .error "no such object"
      | some e => .ok (if f.holds (r.answers e) then [e] else [])

/-- A character the filter grammar reads. -/
def Reserved (c : Char) : Prop := c = '\\' ∨ c = '*' ∨ c = '(' ∨ c = ')' ∨ c = '\x00'

/-- Any other character is left as it is. -/
theorem escapeFilterChar_of_not_reserved {c : Char} (h : ¬ Reserved c) :
    escapeFilterChar c = [c] := by
  simp only [Reserved, not_or] at h
  obtain ⟨h₁, h₂, h₃, h₄, h₅⟩ := h
  simp [escapeFilterChar, h₁, h₂, h₃, h₄, h₅]

/-- The escaped text of a value is read back as the value's octets. -/
theorem decodePiece_escape (cs : List Char) :
    decodePiece (cs.flatMap escapeFilterChar) = some (utf8 cs) := by
  induction cs with
  | nil => rfl
  | cons c cs ih =>
    rw [List.flatMap_cons]
    by_cases hc : Reserved c
    · rcases hc with rfl | rfl | rfl | rfl | rfl
      all_goals
        rw [escapeFilterChar]
        simp only [Char.reduceEq, if_true, if_false, List.cons_append, List.nil_append]
        simp [decodePiece, ih, hexDigit]
        rfl
    · rw [escapeFilterChar_of_not_reserved hc, List.singleton_append, decodePiece.eq_def]
      simp only [Reserved, not_or] at hc
      obtain ⟨h₁, h₂, h₃, h₄, h₅⟩ := hc
      simp [h₁, h₂, h₃, h₄, h₅, ih, utf8]

/-- The escaping of filter values the components share: it is undone exactly, and
leaves no bracket and no star. -/
theorem escaping_escapeLdapFilterValue : Escaping escapeLdapFilterValue := by
  constructor
  · intro v
    rw [escapeLdapFilterValue, String.toList_ofList]
    exact decodePiece_escape v.toList
  · intro v c hc
    rw [escapeLdapFilterValue, String.toList_ofList] at hc
    obtain ⟨d, _, hd⟩ := List.mem_flatMap.mp hc
    by_cases hr : Reserved d
    · rcases hr with rfl | rfl | rfl | rfl | rfl
      all_goals
        simp [escapeFilterChar] at hd
        rcases hd with rfl | rfl | rfl <;> decide
    · rw [escapeFilterChar_of_not_reserved hr, List.mem_singleton] at hd
      subst hd
      simp only [Reserved, not_or] at hr
      exact ⟨hr.2.2.2.1, hr.2.1⟩

/-- A search for a query finds what the query means. -/
theorem Realm.search_query (r : Realm server) {q : Query} (h : ∀ i ∈ q.items, i.Named)
    (base : String) :
    r.search base .subtree (q.render escapeLdapFilterValue) =
      .ok (r.entries.filter fun e =>
        server.within e.dn base && q.filter.holds (r.answers e)) := by
  simp [Realm.search, parse_render escaping_escapeLdapFilterValue h]

/-- A name is its own. -/
theorem Server.sameDn_self (server : Server) (dn : String) : server.sameDn dn dn = true := by
  apply server.sameDn_of_case
  simp [eqIgnoreAsciiCase]

/-- A name is of one entry at most. -/
theorem Realm.eq_of_sameDn (r : Realm server) {a b : Entry} (ha : a ∈ r.entries)
    (hb : b ∈ r.entries) (h : server.sameDn a.dn b.dn = true) : a = b := by
  by_contra hne
  have hsymm : Std.Symm fun a b : Entry => ¬ server.sameDn a.dn b.dn = true := by
    constructor
    intro x y hxy hyx
    exact hxy (server.sameDn_of_common _ _ _ (server.sameDn_self _) hyx)
  exact r.distinct.forall ha hb hne h

/-- An entry is found by any spelling of its name. -/
theorem Realm.find_of_sameDn (r : Realm server) {e : Entry} (he : e ∈ r.entries) {base : String}
    (h : server.sameDn e.dn base = true) :
    r.entries.find? (fun o => server.sameDn o.dn base) = some e := by
  cases hf : r.entries.find? (fun o => server.sameDn o.dn base) with
  | none =>
    rw [List.find?_eq_none] at hf
    exact absurd h (hf e he)
  | some o =>
    have ho := List.find?_some hf
    rw [r.eq_of_sameDn (List.mem_of_find?_eq_some hf) he
      (server.sameDn_of_common _ _ _ ho h)]

/-- A search at an entry finds it when it passes the query, and else nothing. -/
theorem Realm.search_base (r : Realm server) {q : Query} (h : ∀ i ∈ q.items, i.Named)
    {e : Entry} (he : e ∈ r.entries) {base : String} (hbase : server.sameDn e.dn base = true) :
    r.search base .base (q.render escapeLdapFilterValue) =
      .ok (if q.filter.holds (r.answers e) then [e] else []) := by
  simp [Realm.search, parse_render escaping_escapeLdapFilterValue h, r.find_of_sameDn he hbase]

/-- No entry stands twice in a directory. -/
theorem Realm.nodup (r : Realm server) : r.entries.Nodup := by
  apply r.distinct.imp
  intro a b h hab
  exact h (hab ▸ server.sameDn_self a.dn)

end Kerbridge.RealmDirectory

import Kerbridge.DoctorSnapshot
import Mathlib.Order.Defs.Unbundled

/-!
# The laws of distinguished names

The parent of a name has the components of the name but the first. On the texts that read as
names equality is an equivalence, and standing at or within a preorder that goes both ways for
equal names alone. So a name below the IdP parent unit stands in one unit of it, which climbing
from parent to parent finds.
-/

namespace Kerbridge.Doctor

open UnicodeText DistinguishedName ConfigSet

variable [UnicodeTables]

section Laws

variable {a b c dn ou : String} {d : List String}

/-- A name has no parent and one component, or a parent with the others. -/
theorem parentOf_components (h : dnComponents dn = some d) :
    (parentOf dn = "" ∧ d.length = 1) ∨ dnComponents (parentOf dn) = some d.tail := by
  cases d with
  | nil => exact absurd rfl (dnComponents_ne_nil h)
  | cons x rest =>
    cases rest with
    | nil => exact Or.inl ⟨parentOf_single h, rfl⟩
    | cons y rest => exact Or.inr (dnComponents_parentOf h)

/-- Equal names are equal to the same ones. -/
theorem dnEquals_trans (hab : dnEquals a b = true) (hbc : dnEquals b c = true) :
    dnEquals a c = true := by
  obtain ⟨x, ha, hb⟩ := dnEquals_iff.mp hab
  obtain ⟨y, hb', hc⟩ := dnEquals_iff.mp hbc
  rw [hb] at hb'
  cases hb'
  exact dnEquals_iff.mpr ⟨x, ha, hc⟩

/-- A name stands at or within itself. -/
theorem within_self (h : Reads dn) : dnIsAtOrWithin dn dn = true := by
  obtain ⟨d, hd⟩ := Option.isSome_iff_exists.mp h
  exact dnIsAtOrWithin_iff.mpr ⟨d, d, hd, hd, List.suffix_rfl⟩

/-- What stands within a name stands within what that stands within. -/
theorem within_trans (hab : dnIsAtOrWithin a b = true) (hbc : dnIsAtOrWithin b c = true) :
    dnIsAtOrWithin a c = true := by
  obtain ⟨x, y, ha, hb, hxy⟩ := dnIsAtOrWithin_iff.mp hab
  obtain ⟨y', z, hb', hc, hyz⟩ := dnIsAtOrWithin_iff.mp hbc
  rw [hb] at hb'
  cases hb'
  exact dnIsAtOrWithin_iff.mpr ⟨x, z, ha, hc, hyz.trans hxy⟩

/-- Names within each other are equal, and equal names are. -/
theorem within_both_iff :
    dnIsAtOrWithin a b = true ∧ dnIsAtOrWithin b a = true ↔ dnEquals a b = true := by
  constructor
  · rintro ⟨hab, hba⟩
    obtain ⟨x, y, ha, hb, hxy⟩ := dnIsAtOrWithin_iff.mp hab
    obtain ⟨y', x', hb', ha', hyx⟩ := dnIsAtOrWithin_iff.mp hba
    rw [ha] at ha'
    rw [hb] at hb'
    cases ha'
    cases hb'
    have heq : y = x := hxy.eq_of_length (le_antisymm hxy.length_le hyx.length_le)
    exact dnEquals_iff.mpr ⟨x, ha, heq ▸ hb⟩
  · intro h
    obtain ⟨x, ha, hb⟩ := dnEquals_iff.mp h
    exact ⟨dnIsAtOrWithin_iff.mpr ⟨x, x, ha, hb, List.suffix_rfl⟩,
      dnIsAtOrWithin_iff.mpr ⟨x, x, hb, ha, List.suffix_rfl⟩⟩

/-- A text that reads as a name. -/
abbrev Dn : Type := { dn : String // Reads dn }

/-- Equality of names is an equivalence. -/
theorem dnEquals_equivalence : Equivalence fun a b : Dn => dnEquals a.1 b.1 = true where
  refl a := dnEquals_self a.2
  symm h := by
    rw [dnEquals_comm]
    exact h
  trans := dnEquals_trans

/-- Standing at or within is a preorder. -/
theorem within_preorder : IsPreorder Dn fun a b => dnIsAtOrWithin a.1 b.1 = true where
  refl a := within_self a.2
  trans _ _ _ := within_trans

end Laws

section Climbing

variable {cloudIdpOu dn cur : String}

/-- What the loop of `idpOuOf` returns, however many rounds it takes. -/
inductive Climbs (cloudIdpOu dn : String) : String → Option String → Prop
  | top {cur : String} (hempty : parentOf cur = "") : Climbs cloudIdpOu dn cur none
  | stop {cur : String} (hsome : parentOf cur ≠ "")
      (hequals : dnEquals (parentOf cur) cloudIdpOu = true) :
      Climbs cloudIdpOu dn cur (if cur ≠ dn then some cur else none)
  | up {cur : String} {found : Option String} (hsome : parentOf cur ≠ "")
      (hequals : dnEquals (parentOf cur) cloudIdpOu = false)
      (h : Climbs cloudIdpOu dn (parentOf cur) found) : Climbs cloudIdpOu dn cur found

omit [UnicodeTables] in
/-- A parent is shorter than a name that has one. -/
theorem parentOf_shorter (h : parentOf cur ≠ "") :
    (parentOf cur).toList.length < cur.toList.length := by
  unfold parentOf
  rw [String.toList_ofList]
  apply parentLoop_length
  intro hnil
  unfold parentOf at h
  rw [hnil] at h
  exact h rfl

/-- The loop ends, within as many rounds as the name has characters. -/
theorem climbs_idpOuLoop {rounds : ℕ} (hlen : cur.toList.length ≤ rounds) :
    Climbs cloudIdpOu dn cur (idpOuLoop cloudIdpOu dn rounds cur) := by
  induction rounds generalizing cur with
  | zero =>
    have hnil : cur = "" := String.toList_injective (List.length_eq_zero_iff.mp (by omega))
    subst hnil
    exact .top (by decide)
  | succ rounds ih =>
    unfold idpOuLoop
    by_cases hempty : parentOf cur = ""
    · rw [hempty]
      exact .top hempty
    · have hsome : (parentOf cur).isEmpty = false := by
        rw [Bool.eq_false_iff, ne_eq, String.isEmpty_iff]
        exact hempty
      have hshort := parentOf_shorter hempty
      simp only [hsome, Bool.false_eq_true, if_false]
      cases hequals : dnEquals (parentOf cur) cloudIdpOu with
      | true =>
        rw [if_pos rfl]
        exact .stop hempty hequals
      | false =>
        rw [if_neg Bool.false_ne_true]
        exact .up hempty hequals (ih (by omega))

/-- The name so many parents above a name has the components that are left. -/
theorem components_above {q rest : List String} (hrest : rest ≠ [])
    (h : dnComponents dn = some (q ++ rest)) :
    dnComponents (parentOf^[q.length] dn) = some rest := by
  induction q generalizing dn with
  | nil => exact h
  | cons x q ih =>
    rw [List.length_cons, Function.iterate_succ_apply]
    refine ih ?_
    rcases parentOf_components h with ⟨_, hone⟩ | htail
    · have hpos := List.length_pos_of_ne_nil hrest
      simp only [List.cons_append, List.length_cons, List.length_append] at hone
      omega
    · exact htail

/-- The loop finds the ancestor whose parent is the IdP parent unit, unless that is the name
it began at. -/
theorem climbs_some_iff {found : Option String} {c d : List String} {ou : String}
    (h : Climbs cloudIdpOu dn cur found) (hc : dnComponents cloudIdpOu = some c)
    (hcur : dnComponents cur = some d) :
    found = some ou ↔
      ou ≠ dn ∧ ∃ q x, d = q ++ x :: c ∧ ou = parentOf^[q.length] cur := by
  have hpos := List.length_pos_of_ne_nil (dnComponents_ne_nil hc)
  induction h generalizing d with
  | top hempty =>
    rcases parentOf_components hcur with ⟨_, hone⟩ | htail
    · constructor
      · intro hfound
        cases hfound
      · rintro ⟨_, q, x, rfl, _⟩
        simp only [List.length_append, List.length_cons] at hone
        omega
    · rw [hempty, dnComponents_empty] at htail
      cases htail
  | stop hsome hequals =>
    rename_i cur
    obtain ⟨c', hparent, hc'⟩ := dnEquals_iff.mp hequals
    rw [hc] at hc'
    cases hc'
    rcases parentOf_components hcur with ⟨hempty, _⟩ | htail
    · exact absurd hempty hsome
    · have heq : d.tail = c := Option.some.inj (htail.symm.trans hparent)
      have hone : ∀ q x, d = q ++ x :: c → q = [] := by
        rintro q x rfl
        cases q with
        | nil => rfl
        | cons y q =>
          have hlength := congrArg List.length heq
          simp only [List.cons_append, List.tail_cons, List.length_append, List.length_cons]
            at hlength
          omega
      constructor
      · intro hfound
        split at hfound
        · rename_i hne
          cases hfound
          obtain ⟨x, rest, rfl⟩ := List.exists_cons_of_ne_nil (dnComponents_ne_nil hcur)
          exact ⟨hne, [], x, congrArg (x :: ·) heq, rfl⟩
        · cases hfound
      · rintro ⟨hne, q, x, hd, hou⟩
        have hq := hone q x hd
        subst hq
        rw [hou, List.length_nil, Function.iterate_zero, id_eq] at hne ⊢
        rw [if_pos hne]
  | up hsome hequals hclimbs ih =>
    clear hclimbs
    rename_i cur found
    rcases parentOf_components hcur with ⟨hempty, _⟩ | htail
    · exact absurd hempty hsome
    · refine (ih htail).trans ?_
      constructor
      · rintro ⟨hne, q, x, hd, hou⟩
        obtain ⟨y, rest, rfl⟩ := List.exists_cons_of_ne_nil (dnComponents_ne_nil hcur)
        refine ⟨hne, y :: q, x, congrArg (y :: ·) hd, ?_⟩
        rw [List.length_cons, Function.iterate_succ_apply]
        exact hou
      · rintro ⟨hne, q, x, rfl, hou⟩
        cases q with
        | nil =>
          rw [dnEquals_iff.mpr ⟨c, htail, hc⟩] at hequals
          cases hequals
        | cons y q =>
          rw [List.length_cons, Function.iterate_succ_apply] at hou
          exact ⟨hne, q, x, rfl, hou⟩

/-- An ancestor that leaves a component out is not the name. -/
theorem above_ne {c q : List String} {x : String} (hq : q ≠ [])
    (hdn : dnComponents dn = some (q ++ x :: c)) : parentOf^[q.length] dn ≠ dn := by
  intro heq
  have habove := @components_above _ _ q (x :: c) (by simp) hdn
  rw [heq, hdn] at habove
  exact hq (List.append_left_eq_self.mp (Option.some.inj habove))

end Climbing

section Main

variable {snap : Snapshot} {dn ou : String} {d c : List String}

/-- The unit that is found for a name is its ancestor one below the IdP parent unit, when it
stands below that. -/
theorem idpOuOf_eq_some_iff (hdn : dnComponents dn = some d)
    (hc : dnComponents snap.cloudIdpOu = some c) :
    snap.idpOuOf dn = some ou ↔
      ∃ q x, q ≠ [] ∧ d = q ++ x :: c ∧ ou = parentOf^[q.length] dn := by
  have hclimbs : Climbs snap.cloudIdpOu dn dn (snap.idpOuOf dn) := climbs_idpOuLoop le_rfl
  rw [climbs_some_iff hclimbs hc hdn]
  constructor
  · rintro ⟨hne, q, x, hd, hou⟩
    refine ⟨q, x, ?_, hd, hou⟩
    rintro rfl
    exact hne hou
  · rintro ⟨q, x, hq, hd, hou⟩
    refine ⟨?_, q, x, hd, hou⟩
    rw [hou]
    exact above_ne hq (hd ▸ hdn)

/-- **The laws of names**. The components of a parent are those of the name but the first; on
names equality is an equivalence, and standing at or within is a preorder that goes both ways
for equal names alone; and climbing from a name ends, at the ancestor one below the IdP parent
unit when the name stands below that, which is the one unit that holds it. -/
theorem dn_laws :
    (∀ dn d, dnComponents dn = some d →
      (parentOf dn = "" ∧ d.length = 1) ∨ dnComponents (parentOf dn) = some d.tail) ∧
    (Equivalence fun a b : Dn => dnEquals a.1 b.1 = true) ∧
    (IsPreorder Dn fun a b => dnIsAtOrWithin a.1 b.1 = true) ∧
    (∀ a b : Dn, dnIsAtOrWithin a.1 b.1 = true ∧ dnIsAtOrWithin b.1 a.1 = true ↔
      dnEquals a.1 b.1 = true) ∧
    ∀ (snap : Snapshot) dn d c, dnComponents dn = some d →
      dnComponents snap.cloudIdpOu = some c →
      Climbs snap.cloudIdpOu dn dn (snap.idpOuOf dn) ∧
      (∀ ou, snap.idpOuOf dn = some ou ↔
        ∃ q x, q ≠ [] ∧ d = q ++ x :: c ∧ ou = parentOf^[q.length] dn) ∧
      (∀ ou, snap.idpOuOf dn = some ou →
        dnEquals (parentOf ou) snap.cloudIdpOu = true ∧ dnIsBelow dn ou = true) ∧
      ∀ ou, dnEquals (parentOf ou) snap.cloudIdpOu = true → dnIsBelow dn ou = true →
        ∃ unit, snap.idpOuOf dn = some unit ∧ dnEquals unit ou = true := by
  refine ⟨fun dn d => parentOf_components, dnEquals_equivalence, within_preorder,
    fun a b => within_both_iff, ?_⟩
  intro snap dn d c hdn hc
  refine ⟨climbs_idpOuLoop le_rfl, fun ou => idpOuOf_eq_some_iff hdn hc, ?_, ?_⟩
  · intro ou hou
    obtain ⟨q, x, hq, hd, heq⟩ := (idpOuOf_eq_some_iff hdn hc).mp hou
    have hin : dnIsAtOrWithin dn snap.cloudIdpOu = true := by
      refine dnIsAtOrWithin_iff.mpr ⟨d, c, hdn, hc, q ++ [x], ?_⟩
      rw [hd, List.append_assoc, List.singleton_append]
    exact (idpOuOf_some hin hou).symm
  · intro ou hof hbelow
    exact idpOuOf_of_below hof hbelow

end Main

section Sample

omit [UnicodeTables]

/-- A directory without objects. -/
def emptySnapshot : Snapshot where
  cloudIdpOu := "OU=Cloud,DC=x"
  netbios := none
  now := 0
  cloud := []
  resources := []

/-- The laws for a person two below the IdP parent unit, whose name is spelled otherwise. -/
theorem dn_laws_person :
    (@Snapshot.idpOuOf asciiTables emptySnapshot "CN=Doe\\, Jane,ou=s,ou=cloud , dc=X" =
      some "ou=s,ou=cloud , dc=X") := by
  have hdn : @dnComponents asciiTables "CN=Doe\\, Jane,ou=s,ou=cloud , dc=X" =
      some ["cn=doe\\, jane", "ou=s", "ou=cloud", "dc=x"] := by decide +kernel
  have hc : @dnComponents asciiTables emptySnapshot.cloudIdpOu = some ["ou=cloud", "dc=x"] := by
    decide +kernel
  have hfound := ((@dn_laws asciiTables).2.2.2.2 emptySnapshot _ _ _ hdn hc).2.1
  refine (hfound _).mpr ⟨["cn=doe\\, jane"], "ou=s", by simp, rfl, ?_⟩
  decide +kernel

end Sample

end Kerbridge.Doctor

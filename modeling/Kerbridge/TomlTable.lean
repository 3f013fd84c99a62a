import Mathlib.Data.List.Basic

/-!
# Nested tables and paths through them

A table holds values by name, and a value may be a table. A path leads through tables to a
value. Here are reading, taking and putting a value by its path, and what each of them
leaves at every other path.
-/

namespace Kerbridge.Toml

/-- A value. Numbers, booleans, dates and arrays are told apart by their text only. -/
inductive Value where
  | string (text : String)
  | other (text : String)
  | table (entries : List (String × Value))

/-- Values by their names. -/
abbrev Table := List (String × Value)

/-- Whether a value is a table. -/
def Value.isTable : Value → Bool
  | .table _ => true
  | _ => false

/-- The text of a string. -/
def Value.asStr : Value → Option String
  | .string text => some text
  | _ => none

section Names

/-- The value of a name. -/
def Table.get (t : Table) (name : String) : Option Value := List.lookup name t

/-- A table with a value under a name, in place of the one there was. -/
def Table.insert (name : String) (v : Value) : Table → Table
  | [] => [(name, v)]
  | p :: rest => if p.1 = name then (name, v) :: rest else p :: Table.insert name v rest

/-- A table without a name. -/
def Table.erase (t : Table) (name : String) : Table := t.filter fun p => p.1 ≠ name

/-- A name is looked up in the first pair, or behind it. -/
theorem get_cons (p : String × Value) (t : Table) (name : String) :
    Table.get (p :: t) name = if p.1 = name then some p.2 else Table.get t name := by
  obtain ⟨key, v⟩ := p
  unfold Table.get
  rw [List.lookup_cons]
  by_cases h : name = key
  · simp [h]
  · have hb : (name == key) = false := beq_eq_false_iff_ne.mpr h
    have hne : ¬ key = name := fun heq => h heq.symm
    simp [hb, hne]

/-- What a table holds once a value has been put under a name. -/
@[simp] theorem get_insert (t : Table) (name other : String) (v : Value) :
    (Table.insert name v t).get other = if name = other then some v else t.get other := by
  induction t with
  | nil =>
    rw [Table.insert, get_cons]
  | cons p t ih =>
    rw [Table.insert]
    by_cases hp : p.1 = name
    · rw [if_pos hp, get_cons, get_cons, hp]
      by_cases h : name = other
      · simp [h]
      · simp [h]
    · rw [if_neg hp, get_cons, get_cons, ih]
      by_cases h : p.1 = other
      · have hne : ¬ name = other := fun heq => hp (h.trans heq.symm)
        simp [h, hne]
      · simp [h]

/-- What a table holds without a name. -/
@[simp] theorem get_erase (t : Table) (name other : String) :
    (t.erase name).get other = if name = other then none else t.get other := by
  induction t with
  | nil => simp [Table.erase, Table.get]
  | cons p t ih =>
    unfold Table.erase at ih ⊢
    by_cases hp : p.1 = name
    · rw [List.filter_cons_of_neg (by simpa using hp), ih, get_cons, hp]
      by_cases h : name = other
      · simp [h]
      · simp [h]
    · rw [List.filter_cons_of_pos (by simpa using hp), get_cons, get_cons, ih]
      by_cases h : p.1 = other
      · have hne : ¬ name = other := fun heq => hp (h.trans heq.symm)
        simp [h, hne]
      · simp [h]

end Names

section Paths

/-- The value at a path. -/
def atPath : List String → Table → Option Value
  | [], _ => none
  | [name], t => t.get name
  | name :: next :: rest, t =>
    match t.get name with
    | some (.table u) => atPath (next :: rest) u
    | _ => none

/-- The value at a path, with the table it was taken out of. -/
def takePath : List String → Table → Option (Value × Table)
  | [], _ => none
  | [name], t => (t.get name).map fun v => (v, t.erase name)
  | name :: next :: rest, t =>
    match t.get name with
    | some (.table u) =>
      (takePath (next :: rest) u).map fun p => (p.1, Table.insert name (.table p.2) t)
    | _ => none

/-- A value put at a path, with the tables on the way made where there are none. It fails where
something else than a table is in the way. -/
def putPath (v : Value) : List String → Table → Option Table
  | [], _ => none
  | [name], t => some (Table.insert name v t)
  | name :: next :: rest, t =>
    match t.get name with
    | none => (putPath v (next :: rest) []).map fun u => Table.insert name (.table u) t
    | some (.table u) => (putPath v (next :: rest) u).map fun u' => Table.insert name (.table u') t
    | some _ => none

/-- What a path leads to from a value. -/
def under (v : Value) : List String → Option Value
  | [] => some v
  | name :: rest =>
    match v with
    | .table u => atPath (name :: rest) u
    | _ => none

/-- A path through its first table. -/
theorem atPath_cons (name next : String) (rest : List String) (t : Table) :
    atPath (name :: next :: rest) t = (t.get name).bind fun v => under v (next :: rest) := by
  rw [atPath]
  cases t.get name with
  | none => rfl
  | some v =>
    cases v with
    | string text => rfl
    | other text => rfl
    | table u => rfl

/-- A path behind a path. -/
theorem atPath_append {p : List String} (hp : p ≠ []) (q : List String) (t : Table) :
    atPath (p ++ q) t = (atPath p t).bind fun v => under v q := by
  induction p generalizing t with
  | nil => exact absurd rfl hp
  | cons name p ih =>
    cases p with
    | nil =>
      cases q with
      | nil =>
        rw [List.append_nil]
        cases atPath [name] t with
        | none => rfl
        | some v => rfl
      | cons next rest =>
        rw [List.singleton_append, atPath_cons]
        rfl
    | cons next rest =>
      have hnext := ih (by simp)
      rw [List.cons_append, List.cons_append, atPath_cons, atPath_cons, ← List.cons_append]
      cases t.get name with
      | none => rfl
      | some v =>
        cases v with
        | string text => rfl
        | other text => rfl
        | table u => exact hnext u

/-- A value that was taken was at its path. -/
theorem takePath_at {p : List String} {t t' : Table} {v : Value}
    (h : takePath p t = some (v, t')) : atPath p t = some v := by
  induction p generalizing t t' with
  | nil => cases h
  | cons name p ih =>
    cases p with
    | nil =>
      obtain ⟨w, hw, heq⟩ := Option.map_eq_some_iff.mp h
      cases heq
      exact hw
    | cons next rest =>
      rw [takePath] at h
      rw [atPath]
      cases hget : t.get name with
      | none =>
        rw [hget] at h
        cases h
      | some w =>
        cases w with
        | string text =>
          rw [hget] at h
          cases h
        | other text =>
          rw [hget] at h
          cases h
        | table u =>
          rw [hget] at h
          obtain ⟨q, hq, heq⟩ := Option.map_eq_some_iff.mp h
          cases heq
          exact ih hq

/-- A value at a path can be taken. -/
theorem takePath_isSome {p : List String} {t : Table} {v : Value} (h : atPath p t = some v) :
    ∃ t', takePath p t = some (v, t') := by
  induction p generalizing t with
  | nil => cases h
  | cons name p ih =>
    cases p with
    | nil =>
      have hget : t.get name = some v := h
      exact ⟨t.erase name, by rw [takePath, hget]; rfl⟩
    | cons next rest =>
      rw [atPath] at h
      cases hget : t.get name with
      | none =>
        rw [hget] at h
        cases h
      | some w =>
        cases w with
        | string text =>
          rw [hget] at h
          cases h
        | other text =>
          rw [hget] at h
          cases h
        | table u =>
          rw [hget] at h
          obtain ⟨u', hu'⟩ := ih h
          exact ⟨_, by rw [takePath, hget]; dsimp only; rw [hu']; rfl⟩

/-- Two paths neither of which begins the other. -/
def Apart (k p : List String) : Prop := ¬ k <+: p ∧ ¬ p <+: k

instance (k p : List String) : Decidable (Apart k p) := inferInstanceAs (Decidable (_ ∧ _))

/-- Paths through one table are apart if what follows is. -/
theorem apart_cons {name : String} {k p : List String} :
    Apart (name :: k) (name :: p) ↔ Apart k p := by
  unfold Apart
  rw [List.cons_prefix_cons, List.cons_prefix_cons]
  simp

/-- An empty table has nothing at any path. -/
theorem atPath_empty (k : List String) : atPath k [] = none := by
  cases k with
  | nil => rfl
  | cons name k =>
    cases k with
    | nil => rfl
    | cons next rest => rfl

/-- What is at a path once another has been put under the first name. -/
theorem atPath_insert {name : String} {k : List String} (t : Table) (v : Value)
    (h : k.head? ≠ some name) : atPath k (Table.insert name v t) = atPath k t := by
  cases k with
  | nil => rfl
  | cons other k =>
    have hne : ¬ name = other := fun heq => h (by rw [heq]; rfl)
    have hget : (Table.insert name v t).get other = t.get other := by
      rw [get_insert, if_neg hne]
    cases k with
    | nil => exact hget
    | cons next rest => rw [atPath_cons, atPath_cons, hget]

/-- A put goes through the first name of its path: it is put there, or in the table there. -/
theorem putPath_cases {v : Value} {name : String} {rest : List String} {t t' : Table}
    (h : putPath v (name :: rest) t = some t') :
    (rest = [] ∧ t' = Table.insert name v t) ∨
      (rest ≠ [] ∧ ∃ u u', (t.get name = some (.table u) ∨ t.get name = none ∧ u = []) ∧
        putPath v rest u = some u' ∧ t' = Table.insert name (.table u') t) := by
  cases rest with
  | nil =>
    cases h
    exact Or.inl ⟨rfl, rfl⟩
  | cons next rest =>
    refine Or.inr ⟨by simp, ?_⟩
    rw [putPath] at h
    cases hget : t.get name with
    | none =>
      rw [hget] at h
      obtain ⟨u', hu', rfl⟩ := Option.map_eq_some_iff.mp h
      exact ⟨[], u', Or.inr ⟨rfl, rfl⟩, hu', rfl⟩
    | some w =>
      cases w with
      | string text =>
        rw [hget] at h
        cases h
      | other text =>
        rw [hget] at h
        cases h
      | table u =>
        rw [hget] at h
        obtain ⟨u', hu', rfl⟩ := Option.map_eq_some_iff.mp h
        exact ⟨u, u', Or.inl rfl, hu', rfl⟩

/-- What a put leaves at a path apart from its own. -/
theorem putPath_apart {v : Value} {p k : List String} {t t' : Table}
    (h : putPath v p t = some t') (hapart : Apart k p) : atPath k t' = atPath k t := by
  induction p generalizing t t' k with
  | nil => cases h
  | cons name p ih =>
    by_cases hhead : k.head? = some name
    · obtain ⟨k, rfl⟩ : ∃ rest, k = name :: rest := by
        cases k with
        | nil => cases hhead
        | cons other k =>
          cases hhead
          exact ⟨k, rfl⟩
      have hrest := apart_cons.mp hapart
      have hk : k ≠ [] := by
        rintro rfl
        exact hrest.1 List.nil_prefix
      obtain ⟨next, rest, rfl⟩ := List.exists_cons_of_ne_nil hk
      rcases putPath_cases h with ⟨rfl, _⟩ | ⟨_, u, u', hget, hput, rfl⟩
      · exact absurd List.nil_prefix hrest.2
      · have hu := ih hput hrest
        rw [atPath_cons, atPath_cons, get_insert, if_pos rfl]
        change atPath (next :: rest) u' = _
        rw [hu]
        rcases hget with hget | ⟨hget, rfl⟩
        · rw [hget]
          rfl
        · rw [hget, atPath_empty]
          rfl
    · rcases putPath_cases h with ⟨_, rfl⟩ | ⟨_, u, u', _, _, rfl⟩
      · exact atPath_insert t v hhead
      · exact atPath_insert t _ hhead

/-- What a put leaves at its path and behind it. -/
theorem putPath_under {v : Value} {p : List String} (q : List String) {t t' : Table}
    (h : putPath v p t = some t') : atPath (p ++ q) t' = under v q := by
  induction p generalizing t t' with
  | nil => cases h
  | cons name p ih =>
    rcases putPath_cases h with ⟨rfl, rfl⟩ | ⟨hp, u, u', _, hput, rfl⟩
    · have hat : atPath [name] (Table.insert name v t) = some v := by
        rw [atPath, get_insert, if_pos rfl]
      rw [atPath_append (by simp), hat]
      rfl
    · obtain ⟨next, rest, rfl⟩ := List.exists_cons_of_ne_nil hp
      rw [List.cons_append, List.cons_append, atPath_cons, get_insert, if_pos rfl,
        ← List.cons_append, ← ih hput]
      rfl

/-- What a put leaves on the way to its path: tables. -/
theorem putPath_above {v : Value} {k q : List String} (hk : k ≠ []) (hq : q ≠ []) {t t' : Table}
    (h : putPath v (k ++ q) t = some t') : ∃ u, atPath k t' = some (.table u) := by
  induction k generalizing t t' with
  | nil => exact absurd rfl hk
  | cons name k ih =>
    rw [List.cons_append] at h
    rcases putPath_cases h with ⟨hnil, _⟩ | ⟨_, u, u', _, hput, rfl⟩
    · exact absurd (List.append_eq_nil_iff.mp hnil).2 hq
    · cases k with
      | nil => exact ⟨u', by rw [atPath, get_insert, if_pos rfl]⟩
      | cons next rest =>
        obtain ⟨w, hw⟩ := ih (by simp) hput
        exact ⟨w, by rw [atPath_cons, get_insert, if_pos rfl]; exact hw⟩

/-- A take goes through the first name of its path: it is taken there, or in the table there. -/
theorem takePath_cases {v : Value} {name : String} {rest : List String} {t t' : Table}
    (h : takePath (name :: rest) t = some (v, t')) :
    (rest = [] ∧ t.get name = some v ∧ t' = t.erase name) ∨
      (rest ≠ [] ∧ ∃ u u', t.get name = some (.table u) ∧ takePath rest u = some (v, u') ∧
        t' = Table.insert name (.table u') t) := by
  cases rest with
  | nil =>
    obtain ⟨w, hw, heq⟩ := Option.map_eq_some_iff.mp h
    cases heq
    exact Or.inl ⟨rfl, hw, rfl⟩
  | cons next rest =>
    refine Or.inr ⟨by simp, ?_⟩
    rw [takePath] at h
    cases hget : t.get name with
    | none =>
      rw [hget] at h
      cases h
    | some w =>
      cases w with
      | string text =>
        rw [hget] at h
        cases h
      | other text =>
        rw [hget] at h
        cases h
      | table u =>
        rw [hget] at h
        obtain ⟨q, hq, heq⟩ := Option.map_eq_some_iff.mp h
        cases heq
        exact ⟨u, q.2, rfl, hq, rfl⟩

/-- What a take leaves at its path and behind it: nothing. -/
theorem takePath_under {v : Value} {p : List String} (q : List String) {t t' : Table}
    (h : takePath p t = some (v, t')) : atPath (p ++ q) t' = none := by
  induction p generalizing t t' with
  | nil => cases h
  | cons name p ih =>
    rcases takePath_cases h with ⟨rfl, _, rfl⟩ | ⟨hp, u, u', _, htake, rfl⟩
    · have hat : atPath [name] (t.erase name) = none := by
        rw [atPath, get_erase, if_pos rfl]
      rw [atPath_append (by simp), hat]
      rfl
    · obtain ⟨next, rest, rfl⟩ := List.exists_cons_of_ne_nil hp
      rw [List.cons_append, List.cons_append, atPath_cons, get_insert, if_pos rfl,
        ← List.cons_append]
      exact ih htake

/-- What a take leaves at a path that its own does not begin: what was there, or a table where
there was a table. -/
theorem takePath_other {v : Value} {p k : List String} {t t' : Table}
    (h : takePath p t = some (v, t')) (hk : ¬ p <+: k) :
    atPath k t' = atPath k t ∨
      k <+: p ∧ ∃ u u', atPath k t = some (.table u) ∧ atPath k t' = some (.table u') := by
  induction p generalizing t t' k with
  | nil => exact absurd List.nil_prefix hk
  | cons name p ih =>
    cases k with
    | nil => exact Or.inl rfl
    | cons other k =>
      by_cases hname : name = other
      · cases hname
        have hrest : ¬ p <+: k := fun hp => hk (List.cons_prefix_cons.mpr ⟨rfl, hp⟩)
        rcases takePath_cases h with ⟨rfl, _, _⟩ | ⟨_, u, u', hget, htake, rfl⟩
        · exact absurd List.nil_prefix hrest
        · cases k with
          | nil =>
            refine Or.inr ⟨List.cons_prefix_cons.mpr ⟨rfl, List.nil_prefix⟩, u, u', hget, ?_⟩
            rw [atPath, get_insert, if_pos rfl]
          | cons next rest =>
            rw [atPath_cons, atPath_cons, get_insert, if_pos rfl, hget]
            rcases ih htake hrest with hsame | ⟨hpre, w, w', hw, hw'⟩
            · exact Or.inl hsame
            · exact Or.inr ⟨List.cons_prefix_cons.mpr ⟨rfl, hpre⟩, w, w', hw, hw'⟩
      · refine Or.inl ?_
        have hother : ∀ t₂ : Table, t₂.get other = t.get other → atPath (other :: k) t₂ =
            atPath (other :: k) t := by
          intro t₂ hget
          cases k with
          | nil => exact hget
          | cons next rest => rw [atPath_cons, atPath_cons, hget]
        rcases takePath_cases h with ⟨_, _, rfl⟩ | ⟨_, u, u', _, _, rfl⟩
        · exact hother _ (by rw [get_erase, if_neg hname])
        · exact hother _ (by rw [get_insert, if_neg hname])

/-- A take leaves the names of the table that its path does not begin with. -/
theorem takePath_get {v : Value} {name other : String} {rest : List String} {t t' : Table}
    (h : takePath (name :: rest) t = some (v, t')) (hname : ¬ name = other) :
    t'.get other = t.get other := by
  rcases takePath_cases h with ⟨_, _, rfl⟩ | ⟨_, u, u', _, _, rfl⟩
  · rw [get_erase, if_neg hname]
  · rw [get_insert, if_neg hname]

/-- A put leaves the names of the table that its path does not begin with. -/
theorem putPath_get {v : Value} {name other : String} {rest : List String} {t t' : Table}
    (h : putPath v (name :: rest) t = some t') (hname : ¬ name = other) :
    t'.get other = t.get other := by
  rcases putPath_cases h with ⟨_, rfl⟩ | ⟨_, u, u', _, _, rfl⟩
  · rw [get_insert, if_neg hname]
  · rw [get_insert, if_neg hname]

/-- On the way to a path there are tables only, as far as there is anything. -/
def Open (p : List String) (t : Table) : Prop :=
  ∀ k q, k ≠ [] → q ≠ [] → k ++ q = p → ∀ v, atPath k t = some v → v.isTable = true

/-- A way goes on in the table that it leads through. -/
theorem open_cons {name next : String} {rest : List String} {t u : Table}
    (hget : t.get name = some (.table u)) :
    Open (name :: next :: rest) t ↔ Open (next :: rest) u := by
  constructor
  · intro h k q hk hq heq v hv
    obtain ⟨first, others, rfl⟩ := List.exists_cons_of_ne_nil hk
    refine h (name :: first :: others) q (by simp) hq (by rw [List.cons_append, heq]) v ?_
    rw [atPath_cons, hget]
    exact hv
  · intro h k q hk hq heq v hv
    obtain ⟨first, others, rfl⟩ := List.exists_cons_of_ne_nil hk
    rw [List.cons_append] at heq
    obtain ⟨rfl, htail⟩ := List.cons.inj heq
    cases others with
    | nil =>
      rw [atPath, hget] at hv
      cases hv
      rfl
    | cons second others =>
      rw [atPath_cons, hget] at hv
      exact h (second :: others) q (by simp) hq htail v hv

/-- A value can be put at a path exactly if the way there is open. -/
theorem putPath_isSome (v : Value) {p : List String} (hp : p ≠ []) (t : Table) :
    (putPath v p t).isSome = true ↔ Open p t := by
  induction p generalizing t with
  | nil => exact absurd rfl hp
  | cons name p ih =>
    cases p with
    | nil =>
      refine iff_of_true rfl ?_
      intro k q hk hq heq
      obtain ⟨first, others, rfl⟩ := List.exists_cons_of_ne_nil hk
      rw [List.cons_append] at heq
      exact absurd (List.append_eq_nil_iff.mp (List.cons.inj heq).2).2 hq
    | cons next rest =>
      have hempty : Open (next :: rest) [] := by
        intro k q _ _ _ w hw
        rw [atPath_empty] at hw
        cases hw
      rw [putPath]
      cases hget : t.get name with
      | none =>
        rw [Option.isSome_map, ih (by simp)]
        refine iff_of_true hempty ?_
        intro k q hk hq heq w hw
        obtain ⟨first, others, rfl⟩ := List.exists_cons_of_ne_nil hk
        obtain ⟨rfl, _⟩ := List.cons.inj heq
        cases others with
        | nil =>
          rw [atPath, hget] at hw
          cases hw
        | cons second others =>
          rw [atPath_cons, hget] at hw
          cases hw
      | some w =>
        have hclosed : w.isTable = false → ¬ Open (name :: next :: rest) t := by
          intro hw hopen
          have htable := hopen [name] (next :: rest) (by simp) (by simp) rfl w hget
          rw [hw] at htable
          cases htable
        cases w with
        | string text => exact iff_of_false (by simp) (hclosed rfl)
        | other text => exact iff_of_false (by simp) (hclosed rfl)
        | table u =>
          rw [Option.isSome_map, ih (by simp), open_cons hget]

end Paths

end Kerbridge.Toml

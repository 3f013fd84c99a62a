import Mathlib.Data.List.Perm.Basic
import Std.Data.ExtTreeMap

/-!
# Folds of keyed updates

A replica is patched by a list of entries, each naming the key it is about. Seen
at one key, only the entries about that key count, and an entry is sparse: it
carries the properties that changed. The lemmas below read the result of such a
fold off the entries, whatever order they came in.
-/

namespace Kerbridge.KeyedFold

variable {σ ε κ β ρ α : Type*}

/-- A fold of updates that each touch one key, seen at one key, is the fold of
the updates about that key. -/
theorem view_foldl [DecidableEq κ] (step : σ → ε → σ) (view : σ → κ → β) (key : ε → κ)
    (update : β → ε → β)
    (hstep : ∀ s e k, view (step s e) k = if key e = k then update (view s k) e else view s k)
    (s : σ) (entries : List ε) (k : κ) :
    view (entries.foldl step s) k =
      (entries.filter fun e => key e = k).foldl update (view s k) := by
  induction entries generalizing s with
  | nil => rfl
  | cons e entries ih =>
    rw [List.foldl_cons, ih, hstep]
    by_cases hk : key e = k
    · simp [hk]
    · simp [hk]

/-- A property patched by every entry that carries it ends at the value all the
carrying entries agree on, if one of them carries it or the record had it. -/
theorem property_foldl {patch : ρ → ε → ρ} {get : ρ → Option α} {field : ε → Option α}
    (hpatch : ∀ r e, get (patch r e) = (field e <|> get r)) {entries : List ε} {target : Option α}
    (hagree : ∀ e ∈ entries, field e = none ∨ field e = target) {r : ρ}
    (hreach : get r = target ∨ target ≠ none ∧ ∃ e ∈ entries, field e = target) :
    get (entries.foldl patch r) = target := by
  induction entries generalizing r with
  | nil =>
    rcases hreach with h | ⟨_, e, he, _⟩
    · exact h
    · cases he
  | cons e entries ih =>
    have hrest : ∀ e' ∈ entries, field e' = none ∨ field e' = target :=
      fun e' he' => hagree e' (List.mem_cons_of_mem _ he')
    rw [List.foldl_cons]
    apply ih hrest
    rw [hpatch]
    rcases hagree e List.mem_cons_self with hnone | htarget
    · rw [hnone]
      change get r = target ∨ _
      rcases hreach with h | ⟨hsome, e', he', h⟩
      · exact .inl h
      · rcases List.mem_cons.mp he' with rfl | he'
        · exact absurd (h.symm.trans hnone) hsome
        · exact .inr ⟨hsome, e', he', h⟩
    · cases target with
      | none =>
        rw [htarget]
        change get r = none ∨ _
        rcases hreach with h | ⟨hsome, _⟩
        · exact .inl h
        · exact absurd rfl hsome
      | some a =>
        rw [htarget]
        exact .inl rfl

/-- One update of the record at a key: a removal drops it, and any other entry
patches it, from the default when there is none. -/
def updateAt (removed : ε → Bool) (patch : ρ → ε → ρ) (default : ρ) (r : Option ρ) (e : ε) :
    Option ρ :=
  if removed e then none else some (patch (r.getD default) e)

/-- Nothing is left of a record whose entries are all removals. -/
theorem foldl_updateAt_gone {removed : ε → Bool} {patch : ρ → ε → ρ} {default : ρ}
    {entries : List ε} (hgone : ∀ e ∈ entries, removed e = true) {r : Option ρ}
    (hstart : r = none ∨ entries ≠ []) :
    entries.foldl (updateAt removed patch default) r = none := by
  induction entries generalizing r with
  | nil => exact hstart.resolve_right fun h => h rfl
  | cons e entries ih =>
    rw [List.foldl_cons]
    apply ih fun e' he' => hgone e' (List.mem_cons_of_mem _ he')
    left
    simp [updateAt, hgone e List.mem_cons_self]

/-- A record without removals is there at the end, patched by every entry. -/
theorem foldl_updateAt_kept {removed : ε → Bool} {patch : ρ → ε → ρ} {default : ρ}
    {entries : List ε} (hkept : ∀ e ∈ entries, removed e = false) {r : Option ρ}
    (hstart : r ≠ none ∨ entries ≠ []) :
    entries.foldl (updateAt removed patch default) r =
      some (entries.foldl patch (r.getD default)) := by
  induction entries generalizing r with
  | nil =>
    cases r with
    | none => exact absurd rfl (hstart.resolve_right fun h => h rfl)
    | some record => rfl
  | cons e entries ih =>
    have he : updateAt removed patch default r e = some (patch (r.getD default) e) := by
      simp [updateAt, hkept e List.mem_cons_self]
    rw [List.foldl_cons, he, ih (fun e' he' => hkept e' (List.mem_cons_of_mem _ he')) (by simp)]
    rfl

section Entries

open Std (ExtTreeMap TransOrd LawfulEqOrd)

variable {κ ν ε : Type} [Ord κ] [TransOrd κ] [LawfulEqOrd κ]

/-- A map with an entry for every element of a list. -/
def enter (key : ε → κ) (value : ε → ν) (m : ExtTreeMap κ ν) (entries : List ε) :
    ExtTreeMap κ ν :=
  entries.foldl (fun m e => m.insert (key e) (value e)) m

/-- An entry comes from the list, or was there before. -/
theorem of_enter {key : ε → κ} {value : ε → ν} {m : ExtTreeMap κ ν} {entries : List ε} {k : κ}
    {v : ν} (h : (enter key value m entries)[k]? = some v) :
    (∃ e ∈ entries, key e = k ∧ value e = v) ∨ m[k]? = some v := by
  induction entries generalizing m with
  | nil => exact Or.inr h
  | cons e entries ih =>
    rcases ih h with hlater | hfirst
    · obtain ⟨e', he', hk, hv⟩ := hlater
      exact Or.inl ⟨e', List.mem_cons_of_mem _ he', hk, hv⟩
    · rw [ExtTreeMap.getElem?_insert] at hfirst
      by_cases hk : key e = k
      · rw [if_pos (by simpa using hk)] at hfirst
        exact Or.inl ⟨e, List.mem_cons_self, hk, Option.some.inj hfirst⟩
      · rw [if_neg (by simpa using hk)] at hfirst
        exact Or.inr hfirst

/-- What no element of the list is keyed by is as it was before. -/
theorem enter_of_forall_ne {key : ε → κ} {value : ε → ν} {m : ExtTreeMap κ ν} {entries : List ε}
    {k : κ} (h : ∀ e ∈ entries, key e ≠ k) : (enter key value m entries)[k]? = m[k]? := by
  induction entries generalizing m with
  | nil => rfl
  | cons e entries ih =>
    have hne : ¬ compare (key e) k = .eq := by simpa using h e List.mem_cons_self
    refine (ih fun e' he' => h e' (List.mem_cons_of_mem _ he')).trans ?_
    rw [ExtTreeMap.getElem?_insert, if_neg hne]

/-- Every element of a list of distinct keys has its entry. -/
theorem enter_of_mem {key : ε → κ} {value : ε → ν} {m : ExtTreeMap κ ν} {entries : List ε}
    (hdistinct : (entries.map key).Nodup) {e : ε} (he : e ∈ entries) :
    (enter key value m entries)[key e]? = some (value e) := by
  induction entries generalizing m with
  | nil => cases he
  | cons first entries ih =>
    rw [List.map_cons, List.nodup_cons] at hdistinct
    obtain ⟨hfirst, hrest⟩ := hdistinct
    rcases List.mem_cons.mp he with rfl | he
    · have hne : ∀ e' ∈ entries, key e' ≠ key e := by
        intro e' he' heq
        exact hfirst (List.mem_map.mpr ⟨e', he', heq⟩)
      refine (enter_of_forall_ne hne).trans ?_
      simp
    · exact ih hrest he

/-- The keys of a map entered from nothing are those of the list. -/
theorem keys_enter {key : ε → κ} {value : ε → ν} {entries : List ε}
    (hdistinct : (entries.map key).Nodup) :
    (enter key value {} entries).keys.Perm (entries.map key) := by
  have hkeys : (enter key value {} entries).keys.Nodup := ExtTreeMap.nodup_keys
  rw [List.perm_ext_iff_of_nodup hkeys hdistinct]
  intro k
  rw [ExtTreeMap.mem_keys, ExtTreeMap.mem_iff_isSome_getElem?, Option.isSome_iff_exists,
    List.mem_map]
  constructor
  · intro h
    obtain ⟨v, hv⟩ := h
    rcases of_enter hv with hlater | hbefore
    · obtain ⟨e, he, hk, _⟩ := hlater
      exact ⟨e, he, hk⟩
    · simp at hbefore
  · intro h
    obtain ⟨e, he, hk⟩ := h
    exact ⟨value e, hk ▸ enter_of_mem hdistinct he⟩

end Entries

end Kerbridge.KeyedFold

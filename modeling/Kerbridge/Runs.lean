import Mathlib.Data.List.Basic

/-!
# Runs of a machine

A machine takes its inputs one at a time. What every step of a run satisfies
follows from a state invariant, provided the steps preserve it while a condition
on the state and the input holds.
-/

namespace Kerbridge.Runs

variable {σ ι : Type*}

/-- The state after the inputs, taken in order. -/
def run (next : σ → ι → σ) (s : σ) (inputs : List ι) : σ := inputs.foldl next s

@[simp] theorem run_nil (next : σ → ι → σ) (s : σ) : run next s [] = s := rfl

@[simp] theorem run_cons (next : σ → ι → σ) (s : σ) (i : ι) (inputs : List ι) :
    run next s (i :: inputs) = run next (next s i) inputs := rfl

/-- Every step of the run has the property, read in the state it starts from. -/
def Everywhere (next : σ → ι → σ) (P : σ → ι → Prop) : σ → List ι → Prop
  | _, [] => True
  | s, i :: inputs => P s i ∧ Everywhere next P (next s i) inputs

instance decidableEverywhere (next : σ → ι → σ) (P : σ → ι → Prop)
    [∀ s i, Decidable (P s i)] : ∀ s inputs, Decidable (Everywhere next P s inputs)
  | _, [] => isTrue trivial
  | s, i :: inputs =>
    have := decidableEverywhere next P (next s i) inputs
    inferInstanceAs (Decidable (P s i ∧ Everywhere next P (next s i) inputs))

/-- Every step of two runs, one after the other, has the property when the steps of each do. -/
theorem everywhere_append {next : σ → ι → σ} {P : σ → ι → Prop} {s : σ} {xs ys : List ι} :
    Everywhere next P s (xs ++ ys) ↔
      Everywhere next P s xs ∧ Everywhere next P (run next s xs) ys := by
  induction xs generalizing s with
  | nil => simp [Everywhere]
  | cons x xs ih =>
    rw [List.cons_append, run_cons]
    simp only [Everywhere]
    rw [ih, and_assoc]

/-- An invariant kept by every step that meets the condition `P`, and under
which such a step has the property `Q`, gives `Q` along the whole run. -/
theorem everywhere_of_invariant {next : σ → ι → σ} {Inv : σ → Prop} {P Q : σ → ι → Prop}
    (hstep : ∀ s i, Inv s → P s i → Q s i ∧ Inv (next s i)) {s : σ} {inputs : List ι}
    (hs : Inv s) (hP : Everywhere next P s inputs) :
    Everywhere next Q s inputs ∧ Inv (run next s inputs) := by
  induction inputs generalizing s with
  | nil => exact ⟨trivial, hs⟩
  | cons i inputs ih =>
    obtain ⟨hi, hrest⟩ := hP
    obtain ⟨hQ, hnext⟩ := hstep s i hs hi
    obtain ⟨hQs, hlast⟩ := ih hnext hrest
    exact ⟨⟨hQ, hQs⟩, hlast⟩

/-- Under an invariant that the steps with the condition `P` keep, and under which a
step has the property `Q` exactly when it meets `P`, every step of a run has `Q`
exactly when every step meets `P`. -/
theorem everywhere_iff_of_invariant {next : σ → ι → σ} {Inv : σ → Prop} {P Q : σ → ι → Prop}
    (hstep : ∀ s i, Inv s → (Q s i ↔ P s i) ∧ (P s i → Inv (next s i))) {s : σ} {inputs : List ι}
    (hs : Inv s) : Everywhere next Q s inputs ↔ Everywhere next P s inputs := by
  induction inputs generalizing s with
  | nil => exact Iff.rfl
  | cons i inputs ih =>
    obtain ⟨hiff, hkeep⟩ := hstep s i hs
    constructor
    · intro h
      have hi := hiff.mp h.1
      exact ⟨hi, (ih (hkeep hi)).mp h.2⟩
    · intro h
      exact ⟨hiff.mpr h.1, (ih (hkeep h.1)).mpr h.2⟩

/-- Two properties of every step of a run hold together at every step. -/
theorem Everywhere.and {next : σ → ι → σ} {P Q : σ → ι → Prop} {s : σ} {inputs : List ι}
    (hP : Everywhere next P s inputs) (hQ : Everywhere next Q s inputs) :
    Everywhere next (fun s i => P s i ∧ Q s i) s inputs := by
  induction inputs generalizing s with
  | nil => trivial
  | cons i inputs ih => exact ⟨⟨hP.1, hQ.1⟩, ih hP.2 hQ.2⟩

section Failing

variable {ε : Type*}

/-- Every step of a run that may end early has the property, read in the state it starts
from, as far as the run goes. -/
def Along (next : σ → ι → Except ε σ) (P : σ → ι → Prop) : σ → List ι → Prop
  | _, [] => True
  | s, i :: inputs => P s i ∧ ∀ s', next s i = .ok s' → Along next P s' inputs

/-- Taking the first input apart from those that follow it. -/
theorem foldlM_cons_ok {next : σ → ι → Except ε σ} {s s' : σ} {i : ι} {inputs : List ι}
    (h : (i :: inputs).foldlM next s = .ok s') :
    ∃ mid, next s i = .ok mid ∧ inputs.foldlM next mid = .ok s' := by
  rw [List.foldlM_cons] at h
  cases hmid : next s i with
  | error e =>
    rw [hmid] at h
    cases h
  | ok mid =>
    rw [hmid] at h
    exact ⟨mid, rfl, h⟩

/-- What every step keeps holds after the run. -/
theorem foldlM_keeps {next : σ → ι → Except ε σ} {Inv : σ → Prop} {inputs : List ι} {s s' : σ}
    (hstep : ∀ s i s', i ∈ inputs → Inv s → next s i = .ok s' → Inv s') (hs : Inv s)
    (h : inputs.foldlM next s = .ok s') : Inv s' := by
  induction inputs generalizing s with
  | nil =>
    cases h
    exact hs
  | cons i inputs ih =>
    obtain ⟨mid, hmid, hrest⟩ := foldlM_cons_ok h
    have hkeep := hstep s i mid List.mem_cons_self hs hmid
    exact ih (fun s i s' hi => hstep s i s' (List.mem_cons_of_mem _ hi)) hkeep hrest

/-- A property that each step extends exactly by a condition holds after the run exactly
when it held before and the condition did all along. -/
theorem along_iff {next : σ → ι → Except ε σ} {Inv Q : σ → Prop} {C : σ → ι → Prop}
    {inputs : List ι} {s s' : σ}
    (hstep : ∀ s i s', i ∈ inputs → Inv s → next s i = .ok s' → Inv s' ∧ (Q s' ↔ Q s ∧ C s i))
    (hs : Inv s) (h : inputs.foldlM next s = .ok s') : Q s' ↔ Q s ∧ Along next C s inputs := by
  induction inputs generalizing s with
  | nil =>
    cases h
    simp [Along]
  | cons i inputs ih =>
    obtain ⟨mid, hmid, hrest⟩ := foldlM_cons_ok h
    obtain ⟨hinv, hfirst⟩ := hstep s i mid List.mem_cons_self hs hmid
    have hlater := ih (fun s i s' hi => hstep s i s' (List.mem_cons_of_mem _ hi)) hinv hrest
    rw [hlater, hfirst, and_assoc]
    refine and_congr_right fun _ => and_congr_right fun _ => ?_
    constructor
    · intro halong s' hs'
      rw [hmid] at hs'
      cases hs'
      exact halong
    · intro halong
      exact halong mid hmid

end Failing

end Kerbridge.Runs

import Mathlib.Data.List.Perm.Basic
import Mathlib.Data.List.Forall2

/-!
# Two runs of one computation

A computation that may fail, run on two inputs that differ in what must not matter.
Two runs end alike when both end in related values, or both for related reasons; the
rules below carry this through sequences and loops, one step at a time.
-/

namespace Kerbridge.TwoRuns

variable {ε α β γ δ ι : Type} {S : ε → ε → Prop}

/-- Two computations end in related values, or for related reasons. -/
inductive EndAlike (S : ε → ε → Prop) (R : α → β → Prop) : Except ε α → Except ε β → Prop where
  | ok {a : α} {b : β} (h : R a b) : EndAlike S R (.ok a) (.ok b)
  | error {e e' : ε} (h : S e e') : EndAlike S R (.error e) (.error e')

variable {R : α → β → Prop} {Q : γ → δ → Prop}

/-- Two sequences end alike when their first steps do, and their second ones do on what
those leave. -/
theorem EndAlike.bind {x : Except ε α} {y : Except ε β} {f : α → Except ε γ}
    {g : β → Except ε δ} (h : EndAlike S R x y)
    (hnext : ∀ a b, R a b → EndAlike S Q (f a) (g b)) : EndAlike S Q (x >>= f) (y >>= g) := by
  cases h with
  | ok hr => exact hnext _ _ hr
  | error he => exact .error he

/-- What two computations leave may be mapped. -/
theorem EndAlike.map {x : Except ε α} {y : Except ε β} {f : α → γ} {g : β → δ}
    (h : EndAlike S R x y) (hnext : ∀ a b, R a b → Q (f a) (g b)) :
    EndAlike S Q (x.map f) (y.map g) := by
  cases h with
  | ok hr => exact .ok (hnext _ _ hr)
  | error he => exact .error he

/-- Two computations that end alike do so for a weaker relation. -/
theorem EndAlike.mono {Q : α → β → Prop} {x : Except ε α} {y : Except ε β}
    (h : EndAlike S R x y) (hweak : ∀ a b, R a b → Q a b) : EndAlike S Q x y := by
  cases h with
  | ok hr => exact .ok (hweak _ _ hr)
  | error he => exact .error he

/-- A computation ends like itself. -/
theorem EndAlike.refl {R : α → α → Prop} (hS : ∀ e, S e e) (hR : ∀ a, R a a) (x : Except ε α) :
    EndAlike S R x x := by
  cases x with
  | ok a => exact .ok (hR a)
  | error e => exact .error (hS e)

/-- Two loops over one list end alike when every two steps do that start alike. -/
theorem foldlM_alike {f : α → ι → Except ε α} {g : β → ι → Except ε β} {l : List ι} {a : α}
    {b : β} (hstart : R a b)
    (hstep : ∀ i ∈ l, ∀ a b, R a b → EndAlike S R (f a i) (g b i)) :
    EndAlike S R (l.foldlM f a) (l.foldlM g b) := by
  induction l generalizing a b with
  | nil => exact .ok hstart
  | cons i l ih =>
    rw [List.foldlM_cons, List.foldlM_cons]
    refine (hstep i List.mem_cons_self a b hstart).bind ?_
    intro a' b' h'
    exact ih h' fun i hi => hstep i (List.mem_cons_of_mem _ hi)

/-- Lists that are permutations of each other, ordered by one order, are one. -/
theorem mergeSort_of_perm {α : Type} (le : α → α → Bool)
    (htrans : ∀ a b c, le a b = true → le b c = true → le a c = true)
    (htotal : ∀ a b, (le a b || le b a) = true)
    (hanti : ∀ a b, le a b = true → le b a = true → a = b) {l l' : List α} (h : l.Perm l') :
    l.mergeSort le = l'.mergeSort le := by
  have hperm : (l.mergeSort le).Perm (l'.mergeSort le) :=
    (List.mergeSort_perm l le).trans (h.trans (List.mergeSort_perm l' le).symm)
  refine hperm.eq_of_pairwise ?_ (List.pairwise_mergeSort htrans htotal l)
    (List.pairwise_mergeSort htrans htotal l')
  intro a b _ _ hab hba
  exact hanti a b hab hba

end Kerbridge.TwoRuns

import Mathlib.Logic.Relation
import Mathlib.Data.Set.Basic

/-!
# Reachability and worklists

What a relation reaches from a set of starts. A worklist that moves an element to
the done ones and adds its successors changes nothing of what is reached; one that
is empty leaves a set closed under the relation, which reaches itself alone.
-/

namespace Kerbridge.Reachability

variable {α : Type*} {r : α → α → Prop} {starts more : Set α}

/-- What a relation reaches from some starts. -/
def Reached (r : α → α → Prop) (starts : Set α) : Set α :=
  {x | ∃ a ∈ starts, Relation.ReflTransGen r a x}

/-- A start is reached. -/
theorem subset_reached : starts ⊆ Reached r starts :=
  fun x hx => ⟨x, hx, Relation.ReflTransGen.refl⟩

/-- What a step leads to from something reached is reached. -/
theorem reached_step {x y : α} (hx : x ∈ Reached r starts) (h : r x y) :
    y ∈ Reached r starts := by
  obtain ⟨a, ha, hpath⟩ := hx
  exact ⟨a, ha, hpath.tail h⟩

/-- A set that holds the starts and is closed under the relation holds what is reached. -/
theorem reached_subset {s : Set α} (hstarts : starts ⊆ s)
    (hclosed : ∀ x ∈ s, ∀ y, r x y → y ∈ s) : Reached r starts ⊆ s := by
  intro x hx
  obtain ⟨a, ha, hpath⟩ := hx
  induction hpath with
  | refl => exact hstarts ha
  | tail _ hstep ih => exact hclosed _ ih _ hstep

/-- A closed set reaches itself alone. -/
theorem reached_of_closed (hclosed : ∀ x ∈ starts, ∀ y, r x y → y ∈ starts) :
    Reached r starts = starts :=
  (reached_subset subset_rfl hclosed).antisymm subset_reached

/-- More starts reach more. -/
theorem reached_mono (h : starts ⊆ more) : Reached r starts ⊆ Reached r more :=
  reached_subset (h.trans subset_reached) fun _ hx _ hxy => reached_step hx hxy

/-- Starts that are reached already add nothing. -/
theorem reached_union (h : more ⊆ Reached r starts) :
    Reached r (starts ∪ more) = Reached r starts := by
  refine (reached_subset ?_ fun x hx y hxy => reached_step hx hxy).antisymm ?_
  · exact Set.union_subset subset_reached h
  · exact reached_mono Set.subset_union_left

end Kerbridge.Reachability

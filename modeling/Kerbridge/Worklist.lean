import Mathlib.Data.List.Nodup
import Mathlib.Data.List.Perm.Subperm
import Kerbridge.Reachability

/-!
# Exploring what a relation reaches

A stack of elements still to be followed and a list of those seen, compared by a
key. Every element followed was seen for the first time when it was put on the
stack, so as many rounds as there are keys end the exploration, and what it has
seen then is exactly what the start leads to in one step or more.
-/

namespace Kerbridge.Worklist

open Relation

section Definitions

variable {α κ : Type} [DecidableEq κ]

/-- The successors that were not seen before join both the stack and the seen ones. -/
def visit (key : α → κ) (queue seen : List α) : List α → List α × List α
  | [] => (queue, seen)
  | y :: ys =>
    if seen.any fun s => decide (key s = key y) then visit key queue seen ys
    else visit key (y :: queue) (seen ++ [y]) ys

/-- The rounds of an exploration: the top of the stack is followed, until nothing is
left to follow. None when the rounds run out before. -/
def explore (key : α → κ) (next : α → List α) : ℕ → List α → List α → Option (List α)
  | _, [], seen => some seen
  | 0, _ :: _, _ => none
  | rounds + 1, x :: queue, seen =>
    explore key next rounds (visit key queue seen (next x)).1 (visit key queue seen (next x)).2

end Definitions

variable {α κ : Type} [DecidableEq κ] {key : α → κ} {next : α → List α}

/-- One key leads to another: an element of the first has a successor of the second. -/
def Leads (key : α → κ) (next : α → List α) (k l : κ) : Prop :=
  ∃ x, key x = k ∧ ∃ y ∈ next x, key y = l

/-- What a visit adds: successors only, each key once, and none of them is left out. -/
theorem visit_spec (queue seen ys : List α) :
    ∃ new, visit key queue seen ys = (new.reverse ++ queue, seen ++ new) ∧
      (∀ y ∈ new, y ∈ ys) ∧ (∀ y ∈ ys, key y ∈ (seen ++ new).map key) ∧
      ((seen.map key).Nodup → ((seen ++ new).map key).Nodup) := by
  induction ys generalizing queue seen with
  | nil => exact ⟨[], by simp [visit], by simp, by simp, by simp⟩
  | cons y ys ih =>
    rw [visit]
    split
    · rename_i hseen
      obtain ⟨new, heq, hsub, hall, hnodup⟩ := ih queue seen
      have hy : key y ∈ (seen ++ new).map key := by
        obtain ⟨s, hs, hkey⟩ := List.any_eq_true.mp hseen
        have hkey' : key s = key y := of_decide_eq_true hkey
        exact hkey' ▸ List.mem_map_of_mem (List.mem_append_left new hs)
      refine ⟨new, heq, fun z hz => List.mem_cons_of_mem y (hsub z hz), ?_, hnodup⟩
      exact List.forall_mem_cons.mpr ⟨hy, hall⟩
    · rename_i hseen
      obtain ⟨new, heq, hsub, hall, hnodup⟩ := ih (y :: queue) (seen ++ [y])
      have happ : seen ++ [y] ++ new = seen ++ y :: new := by simp
      rw [happ] at heq hall hnodup
      have hfresh : key y ∉ seen.map key := by
        intro hmem
        obtain ⟨s, hs, hkey⟩ := List.mem_map.mp hmem
        exact hseen (List.any_eq_true.mpr ⟨s, hs, decide_eq_true hkey⟩)
      refine ⟨y :: new, by rw [heq]; simp, ?_, ?_, ?_⟩
      · exact List.forall_mem_cons.mpr
          ⟨List.mem_cons_self, fun z hz => List.mem_cons_of_mem y (hsub z hz)⟩
      · exact List.forall_mem_cons.mpr ⟨List.mem_map_of_mem (by simp), hall⟩
      · intro h
        apply hnodup
        rw [List.map_append, List.map_singleton, List.nodup_append]
        refine ⟨h, List.nodup_singleton _, ?_⟩
        intro a ha b hb hab
        rw [List.mem_singleton] at hb
        exact hfresh (hb ▸ hab ▸ ha)

/-- Between two rounds: each key seen once, everything seen is led to from the start,
and what was followed has all its successors among the seen ones. -/
structure Exploring (key : α → κ) (next : α → List α) (start : α) (queue seen : List α) :
    Prop where
  nodup : (seen.map key).Nodup
  listed : ∀ s ∈ seen, ∃ x, s ∈ next x
  reached : ∀ k ∈ seen.map key, TransGen (Leads key next) (key start) k
  origin : ∀ x ∈ queue, x = start ∨ x ∈ seen
  closed : ∀ k, k = key start ∨ k ∈ seen.map key →
    k ∈ queue.map key ∨ ∀ l, Leads key next k l → l ∈ seen.map key

omit [DecidableEq κ] in
/-- An exploration starts with the start alone, and nothing seen. -/
theorem exploring_start (start : α) : Exploring key next start [start] [] := by
  refine ⟨List.nodup_nil, by simp, by simp, by simp, ?_⟩
  intro k hk
  simp only [List.map_nil, List.not_mem_nil, or_false] at hk
  exact Or.inl (by simp [hk])

/-- A round keeps the invariant, where elements of one key have the same successors. -/
theorem Exploring.round (hnext : ∀ x y, key x = key y → next x = next y) {start x : α}
    {queue seen : List α} (h : Exploring key next start (x :: queue) seen) :
    Exploring key next start (visit key queue seen (next x)).1
      (visit key queue seen (next x)).2 := by
  obtain ⟨new, heq, hsub, hall, hnodup⟩ := @visit_spec _ _ _ key queue seen (next x)
  rw [heq]
  have hfrom : key x = key start ∨ key x ∈ seen.map key := by
    rcases h.origin x List.mem_cons_self with rfl | hx
    · exact Or.inl rfl
    · exact Or.inr (List.mem_map_of_mem hx)
  have hstep : ∀ y ∈ new, TransGen (Leads key next) (key start) (key y) := by
    intro y hy
    have hlead : Leads key next (key x) (key y) := ⟨x, rfl, y, hsub y hy, rfl⟩
    rcases hfrom with hx | hx
    · exact TransGen.single (hx ▸ hlead)
    · exact (h.reached _ hx).tail hlead
  have hold : ∀ k ∈ seen.map key, k ∈ (seen ++ new).map key := by
    intro k hk
    rw [List.map_append]
    exact List.mem_append_left _ hk
  have hdone : ∀ l, Leads key next (key x) l → l ∈ (seen ++ new).map key := by
    rintro l ⟨x', hx', y, hy, rfl⟩
    exact hall y (hnext x' x hx' ▸ hy)
  constructor
  · exact hnodup h.nodup
  · intro s hs
    rcases List.mem_append.mp hs with hs | hs
    · exact h.listed s hs
    · exact ⟨x, hsub s hs⟩
  · intro k hk
    rw [List.map_append, List.mem_append] at hk
    rcases hk with hk | hk
    · exact h.reached k hk
    · obtain ⟨y, hy, rfl⟩ := List.mem_map.mp hk
      exact hstep y hy
  · intro z hz
    rcases List.mem_append.mp hz with hz | hz
    · exact Or.inr (List.mem_append_right _ (List.mem_reverse.mp hz))
    · rcases h.origin z (List.mem_cons_of_mem x hz) with rfl | hz
      · exact Or.inl rfl
      · exact Or.inr (List.mem_append_left _ hz)
  · intro k hk
    by_cases hnew : k ∈ new.map key
    · left
      rw [List.map_append, List.map_reverse]
      exact List.mem_append_left _ (List.mem_reverse.mpr hnew)
    have hk' : k = key start ∨ k ∈ seen.map key := by
      rcases hk with hk | hk
      · exact Or.inl hk
      · rw [List.map_append, List.mem_append] at hk
        exact Or.inr (hk.resolve_right hnew)
    rcases h.closed k hk' with hqueue | hclosed
    · rcases List.mem_cons.mp hqueue with rfl | hqueue
      · exact Or.inr hdone
      · left
        rw [List.map_append]
        exact List.mem_append_right _ hqueue
    · exact Or.inr fun l hl => hold l (hclosed l hl)

/-- What an exploration ends with keeps the invariant, and nothing is left to follow. -/
theorem Exploring.ended (hnext : ∀ x y, key x = key y → next x = next y) {start : α}
    {rounds : ℕ} {queue seen out : List α} (h : Exploring key next start queue seen)
    (hout : explore key next rounds queue seen = some out) :
    Exploring key next start [] out := by
  induction rounds generalizing queue seen with
  | zero =>
    cases queue with
    | nil =>
      cases hout
      exact h
    | cons x queue => cases hout
  | succ rounds ih =>
    cases queue with
    | nil =>
      cases hout
      exact h
    | cons x queue => exact ih (h.round hnext) hout

omit [DecidableEq κ] in
/-- No more is seen than there are keys. -/
theorem Exploring.length_le {names : List κ} (hnames : ∀ x, ∀ y ∈ next x, key y ∈ names)
    {start : α} {queue seen : List α} (h : Exploring key next start queue seen) :
    seen.length ≤ names.length := by
  have hsub : seen.map key ⊆ names := by
    intro k hk
    obtain ⟨s, hs, rfl⟩ := List.mem_map.mp hk
    obtain ⟨x, hx⟩ := h.listed s hs
    exact hnames x s hx
  have hle := (List.subperm_of_subset h.nodup hsub).length_le
  rwa [List.length_map] at hle

/-- The rounds suffice when they are as many as the stack holds and the keys left. -/
theorem Exploring.ends (hnext : ∀ x y, key x = key y → next x = next y) {names : List κ}
    (hnames : ∀ x, ∀ y ∈ next x, key y ∈ names) {start : α} {rounds : ℕ} {queue seen : List α}
    (h : Exploring key next start queue seen)
    (hrounds : queue.length + names.length ≤ rounds + seen.length) :
    ∃ out, explore key next rounds queue seen = some out := by
  induction rounds generalizing queue seen with
  | zero =>
    cases queue with
    | nil => exact ⟨seen, rfl⟩
    | cons x queue =>
      have hle := h.length_le hnames
      rw [List.length_cons] at hrounds
      omega
  | succ rounds ih =>
    cases queue with
    | nil => exact ⟨seen, rfl⟩
    | cons x queue =>
      have hround := h.round hnext
      obtain ⟨new, heq, _⟩ := @visit_spec _ _ _ key queue seen (next x)
      rw [explore]
      rw [heq] at hround ⊢
      refine ih hround ?_
      simp only [List.length_append, List.length_reverse, List.length_cons] at hrounds ⊢
      omega

/-- An exploration ends, within one round for each key and one for the start. -/
theorem explore_ends (hnext : ∀ x y, key x = key y → next x = next y) {names : List κ}
    (hnames : ∀ x, ∀ y ∈ next x, key y ∈ names) (start : α) :
    ∃ out, explore key next (names.length + 1) [start] [] = some out := by
  refine (exploring_start start).ends hnext hnames ?_
  simp only [List.length_singleton, List.length_nil]
  omega

/-- An exploration has seen exactly the keys that the start leads to. -/
theorem mem_explore_iff (hnext : ∀ x y, key x = key y → next x = next y) {start : α}
    {rounds : ℕ} {out : List α} (hout : explore key next rounds [start] [] = some out) (k : κ) :
    k ∈ out.map key ↔ TransGen (Leads key next) (key start) k := by
  have h := (exploring_start start).ended hnext hout
  have hclosed : ∀ k, k = key start ∨ k ∈ out.map key → ∀ l, Leads key next k l →
      l ∈ out.map key := by
    intro k hk
    exact (h.closed k hk).resolve_left (by simp)
  refine ⟨h.reached k, ?_⟩
  intro hk
  induction hk with
  | single hlead => exact hclosed _ (Or.inl rfl) _ hlead
  | tail _ hlead ih => exact hclosed _ (Or.inr ih) _ hlead

end Kerbridge.Worklist

import Kerbridge.Fallible

/-!
# Requests that may fail

A request changes a state or is refused; it may never arrive, and its answer may be
lost after it was carried out. A script sends its requests in order and ends at the
first that errs; a batch runs one script after the other, whatever became of those
before. What is said of such runs is said at every moment, that is of the state every
request leaves behind.
-/

namespace Kerbridge.Attempts

open Fallible

variable {σ ρ ε : Type}

/-- What becomes of a request that is sent. -/
inductive Fate (ε : Type) where
  /-- It is carried out or refused, and answered. -/
  | answered
  /-- It never arrives. -/
  | lost (why : ε)
  /-- It is carried out or refused, and the answer is lost. -/
  | unanswered (why : ε)

/-- How requests are carried out, and the error of one that is not answered. -/
structure Service (σ ρ ε : Type) where
  make : ρ → σ → Except ε σ
  unanswered : ρ → ε → ε

/-- The state after a request, which a refused one leaves as it was. -/
def Service.left (v : Service σ ρ ε) (r : ρ) (s : σ) : σ :=
  match v.make r s with
  | .ok s' => s'
  | .error _ => s

/-- One request: the state it leaves behind, and its error. -/
def Service.attempt (v : Service σ ρ ε) (r : ρ) (s : σ) : Fate ε → σ × Option ε
  | .answered =>
    match v.make r s with
    | .ok s' => (s', none)
    | .error e => (s, some e)
  | .lost why => (s, some (v.unanswered r why))
  | .unanswered why => (v.left r s, some (v.unanswered r why))

/-- What a run leaves behind: the state after every request, and an error. -/
structure Trace (σ ε : Type) where
  moments : List σ
  error : Option ε

/-- The state at the end of a run. -/
def lastOf (s : σ) (moments : List σ) : σ := moments.getLastD s

/-- Requests sent in order, up to the first that errs. -/
def Service.script (v : Service σ ρ ε) : (ℕ → Fate ε) → σ → List ρ → Trace σ ε
  | _, _, [] => ⟨[], none⟩
  | fates, s, r :: rs =>
    match v.attempt r s (fates 0) with
    | (s', some e) => ⟨[s'], some e⟩
    | (s', none) =>
      let rest := v.script (fun n => fates (n + 1)) s' rs
      ⟨s' :: rest.moments, rest.error⟩

/-- A task: the requests of a script, or why there are none. -/
abbrev Task (ρ ε : Type) := Except ε (List ρ)

/-- One task. -/
def Service.run (v : Service σ ρ ε) (fates : ℕ → Fate ε) (s : σ) : Task ρ ε → Trace σ ε
  | .ok rs => v.script fates s rs
  | .error e => ⟨[], some e⟩

/-- What a batch leaves behind: the state after every request, and what became of every
task. -/
structure Report (σ ε : Type) where
  moments : List σ
  outcomes : List (Option ε)

/-- One task after the other, each with the fates of its own requests. -/
def Service.batch (v : Service σ ρ ε) : (ℕ → ℕ → Fate ε) → σ → List (Task ρ ε) → Report σ ε
  | _, _, [] => ⟨[], []⟩
  | fates, s, t :: ts =>
    let first := v.run (fates 0) s t
    let rest := v.batch (fun n => fates (n + 1)) (lastOf s first.moments) ts
    ⟨first.moments ++ rest.moments, first.error :: rest.outcomes⟩

section Last

/-- The end of a run that goes on is the end of what follows. -/
theorem lastOf_append (s : σ) (xs ys : List σ) : lastOf s (xs ++ ys) = lastOf (lastOf s xs) ys := by
  unfold lastOf
  cases ys with
  | nil => simp
  | cons y ys => simp [List.getLastD_eq_getLast?, List.getLast?_append]

/-- The end of a run that has a moment is the end of the run from there. -/
theorem lastOf_cons (s m : σ) (moments : List σ) : lastOf s (m :: moments) = lastOf m moments :=
  lastOf_append s [m] moments

/-- The end of a run is its start or one of its moments. -/
theorem lastOf_mem (s : σ) (moments : List σ) : lastOf s moments ∈ s :: moments := by
  unfold lastOf
  cases moments with
  | nil => simp
  | cons m ms =>
    rw [List.getLastD_eq_getLast?, List.getLast?_eq_some_getLast (by simp)]
    exact List.mem_cons_of_mem _ (List.getLast_mem _)

end Last

variable {v : Service σ ρ ε}

/-- A request is carried out, or changes nothing and errs; without an error it is
carried out. -/
theorem attempt_cases (r : ρ) (s : σ) (fate : Fate ε) :
    v.make r s = .ok (v.attempt r s fate).1 ∨
      (v.attempt r s fate).1 = s ∧ (v.attempt r s fate).2 ≠ none := by
  cases fate with
  | answered =>
    unfold Service.attempt
    cases v.make r s with
    | ok s' => exact Or.inl rfl
    | error e => exact Or.inr ⟨rfl, by simp⟩
  | lost why => exact Or.inr ⟨rfl, by simp [Service.attempt]⟩
  | unanswered why =>
    unfold Service.attempt Service.left
    cases v.make r s with
    | ok s' => exact Or.inl rfl
    | error e => exact Or.inr ⟨rfl, by simp⟩

/-- A script that errs at once has one moment, and another goes on. -/
theorem script_cons (fates : ℕ → Fate ε) (s : σ) (r : ρ) (rs : List ρ) :
    (∃ e, v.attempt r s (fates 0) = ((v.attempt r s (fates 0)).1, some e) ∧
      v.script fates s (r :: rs) = ⟨[(v.attempt r s (fates 0)).1], some e⟩) ∨
    ∃ s', v.make r s = .ok s' ∧ v.script fates s (r :: rs) =
      ⟨s' :: (v.script (fun n => fates (n + 1)) s' rs).moments,
        (v.script (fun n => fates (n + 1)) s' rs).error⟩ := by
  have hcases := @attempt_cases _ _ _ v r s (fates 0)
  rw [Service.script]
  rcases hattempt : v.attempt r s (fates 0) with ⟨s', error⟩
  rw [hattempt] at hcases
  cases error with
  | some e => exact Or.inl ⟨e, rfl, rfl⟩
  | none =>
    rcases hcases with hmade | ⟨_, hnone⟩
    · exact Or.inr ⟨s', hmade, rfl⟩
    · exact absurd rfl hnone

/-- What every request keeps holds at every moment of a script. -/
theorem script_keeps {Inv : σ → Prop} {rs : List ρ}
    (hstep : ∀ r ∈ rs, ∀ s s', Inv s → v.make r s = .ok s' → Inv s') (fates : ℕ → Fate ε) {s : σ}
    (hs : Inv s) : ∀ m ∈ s :: (v.script fates s rs).moments, Inv m := by
  induction rs generalizing fates s with
  | nil => simpa [Service.script] using hs
  | cons r rs ih =>
    obtain ⟨hfirst, hrest⟩ := List.forall_mem_cons.mp hstep
    refine List.forall_mem_cons.mpr ⟨hs, ?_⟩
    rcases @script_cons _ _ _ v fates s r rs with ⟨e, _, heq⟩ | ⟨s', hmade, heq⟩
    · rw [heq]
      refine List.forall_mem_singleton.mpr ?_
      rcases @attempt_cases _ _ _ v r s (fates 0) with hmade | ⟨hsame, _⟩
      · exact hfirst s _ hs hmade
      · rw [hsame]
        exact hs
    · rw [heq]
      exact ih hrest _ (hfirst s s' hs hmade)

/-- A script without an error has carried out all its requests, in order. -/
theorem script_done {fates : ℕ → Fate ε} {s : σ} {rs : List ρ}
    (h : (v.script fates s rs).error = none) :
    rs.foldlM (fun s r => v.make r s) s = .ok (lastOf s (v.script fates s rs).moments) := by
  induction rs generalizing fates s with
  | nil => rfl
  | cons r rs ih =>
    rcases @script_cons _ _ _ v fates s r rs with ⟨e, _, heq⟩ | ⟨s', hmade, heq⟩
    · rw [heq] at h
      cases h
    · rw [heq] at h ⊢
      rw [List.foldlM_cons, hmade]
      dsimp only
      rw [lastOf_cons]
      exact ih h

/-- What every request keeps holds at every moment of a task. -/
theorem run_keeps {Inv : σ → Prop} {t : Task ρ ε}
    (hstep : ∀ rs, t = .ok rs → ∀ r ∈ rs, ∀ s s', Inv s → v.make r s = .ok s' → Inv s')
    (fates : ℕ → Fate ε) {s : σ} (hs : Inv s) : ∀ m ∈ s :: (v.run fates s t).moments, Inv m := by
  cases t with
  | error e => simpa [Service.run] using hs
  | ok rs => exact script_keeps (hstep rs rfl) fates hs

/-- What every task keeps at every moment holds at every moment of a batch. -/
theorem batch_keeps {Inv : σ → Prop} {ts : List (Task ρ ε)}
    (htask : ∀ t ∈ ts, ∀ fates s, Inv s → ∀ m ∈ s :: (v.run fates s t).moments, Inv m)
    (fates : ℕ → ℕ → Fate ε) {s : σ} (hs : Inv s) :
    ∀ m ∈ s :: (v.batch fates s ts).moments, Inv m := by
  induction ts generalizing fates s with
  | nil => simpa [Service.batch] using hs
  | cons t ts ih =>
    obtain ⟨hfirst, hrest⟩ := List.forall_mem_cons.mp htask
    have hmoments := hfirst (fates 0) s hs
    refine List.forall_mem_cons.mpr ⟨hs, ?_⟩
    intro m hm
    rcases List.mem_append.mp hm with hm | hm
    · exact hmoments m (List.mem_cons_of_mem _ hm)
    · exact ih hrest _ (hmoments _ (lastOf_mem _ _)) m (List.mem_cons_of_mem _ hm)

/-- What every request of a batch keeps holds at every moment of it. -/
theorem batch_keeps_of_requests {Inv : σ → Prop} {ts : List (Task ρ ε)}
    (hstep : ∀ rs, .ok rs ∈ ts → ∀ r ∈ rs, ∀ s s', Inv s → v.make r s = .ok s' → Inv s')
    (fates : ℕ → ℕ → Fate ε) {s : σ} (hs : Inv s) :
    ∀ m ∈ s :: (v.batch fates s ts).moments, Inv m := by
  refine batch_keeps ?_ fates hs
  intro t ht fates s hs
  refine run_keeps ?_ fates hs
  intro rs hrs
  exact hstep rs (hrs ▸ ht)

/-- Two batches, one after the other. -/
theorem batch_append (fates : ℕ → ℕ → Fate ε) (s : σ) (ts ts' : List (Task ρ ε)) :
    v.batch fates s (ts ++ ts') =
      ⟨(v.batch fates s ts).moments ++ (v.batch (fun n => fates (n + ts.length))
          (lastOf s (v.batch fates s ts).moments) ts').moments,
        (v.batch fates s ts).outcomes ++ (v.batch (fun n => fates (n + ts.length))
          (lastOf s (v.batch fates s ts).moments) ts').outcomes⟩ := by
  induction ts generalizing fates s with
  | nil => rfl
  | cons t ts ih =>
    rw [List.cons_append, Service.batch, ih]
    simp only [Service.batch, List.append_assoc, List.cons_append, lastOf_append,
      List.length_cons, Nat.add_assoc]

/-- Every task has an outcome. -/
theorem batch_outcomes_length (fates : ℕ → ℕ → Fate ε) (s : σ) (ts : List (Task ρ ε)) :
    (v.batch fates s ts).outcomes.length = ts.length := by
  induction ts generalizing fates s with
  | nil => rfl
  | cons t ts ih => simp [Service.batch, ih]

/-- The requests a task may send. -/
def sent : Task ρ ε → List ρ
  | .ok rs => rs
  | .error _ => []

section Progress

variable {β : Type} {q : β → ρ} {all : List β} {Inv : List β → σ → Prop}

/-- What holds after some of the steps still holds after one more, whether its request was
carried out or not. -/
def Advances (v : Service σ ρ ε) (q : β → ρ) (all : List β) (Inv : List β → σ → Prop) : Prop :=
  ∀ pre b post, all = pre ++ b :: post → ∀ s, Inv pre s →
    Inv (pre ++ [b]) s ∧ ∀ s', v.make (q b) s = .ok s' → Inv (pre ++ [b]) s'

/-- Steps whose requests are not sent. -/
theorem Advances.skip (h : Advances v q all Inv) {pre mid post : List β}
    (hall : all = pre ++ mid ++ post) {s : σ} (hs : Inv pre s) : Inv (pre ++ mid) s := by
  induction mid generalizing pre with
  | nil => rwa [List.append_nil]
  | cons b mid ih =>
    have hstep := (h pre b (mid ++ post) (by simp [hall]) s hs).1
    rw [List.append_cons]
    refine ih ?_ hstep
    simp [hall]

/-- Every moment of a script comes after some of the steps, and its end after all of its
own. -/
theorem Advances.script (h : Advances v q all Inv) {pre mid post : List β}
    (hall : all = pre ++ mid ++ post) (fates : ℕ → Fate ε) {s : σ} (hs : Inv pre s) :
    (∀ m ∈ s :: (v.script fates s (mid.map q)).moments, ∃ done, done <+: all ∧ Inv done m) ∧
      Inv (pre ++ mid) (lastOf s (v.script fates s (mid.map q)).moments) := by
  induction mid generalizing pre fates s with
  | nil =>
    refine ⟨List.forall_mem_singleton.mpr ⟨pre, ⟨post, by simpa using hall.symm⟩, hs⟩, ?_⟩
    rwa [List.append_nil]
  | cons b mid ih =>
    have hall' : all = pre ++ [b] ++ mid ++ post := by simp [hall]
    have hpre : pre <+: all := ⟨b :: mid ++ post, by simp [hall]⟩
    have hnext : pre ++ [b] <+: all := ⟨mid ++ post, by simp [hall]⟩
    obtain ⟨hskip, hmade⟩ := h pre b (mid ++ post) (by simp [hall]) s hs
    rw [List.map_cons, List.append_cons]
    rcases @script_cons _ _ _ v fates s (q b) (mid.map q) with ⟨e, _, heq⟩ | ⟨s', hmake, heq⟩
    · rw [heq]
      have hleft : Inv (pre ++ [b]) (v.attempt (q b) s (fates 0)).1 := by
        rcases @attempt_cases _ _ _ v (q b) s (fates 0) with hmake | ⟨hsame, _⟩
        · exact hmade _ hmake
        · rw [hsame]
          exact hskip
      refine ⟨List.forall_mem_cons.mpr ⟨⟨pre, hpre, hs⟩, ?_⟩, h.skip hall' hleft⟩
      exact List.forall_mem_singleton.mpr ⟨_, hnext, hleft⟩
    · rw [heq]
      obtain ⟨hmoments, hend⟩ := ih hall' (fun n => fates (n + 1)) (hmade s' hmake)
      refine ⟨List.forall_mem_cons.mpr ⟨⟨pre, hpre, hs⟩, hmoments⟩, ?_⟩
      dsimp only
      rw [lastOf_cons]
      exact hend

/-- Every moment of a batch comes after some of the steps of its tasks, and its end after
all of them. -/
theorem Advances.batch {ts : List (Task ρ ε)} {steps : List (List β)}
    (hsteps : List.Forall₂ (fun t bs => sent t = bs.map q) ts steps)
    (h : Advances v q all Inv) {pre post : List β} (hall : all = pre ++ steps.flatten ++ post)
    (fates : ℕ → ℕ → Fate ε) {s : σ} (hs : Inv pre s) :
    (∀ m ∈ s :: (v.batch fates s ts).moments, ∃ done, done <+: all ∧ Inv done m) ∧
      Inv (pre ++ steps.flatten) (lastOf s (v.batch fates s ts).moments) := by
  induction hsteps generalizing pre fates s with
  | nil =>
    refine ⟨List.forall_mem_singleton.mpr ⟨pre, ⟨post, by simpa using hall.symm⟩, hs⟩, ?_⟩
    rwa [List.flatten_nil, List.append_nil]
  | @cons t bs ts steps hbs _ ih =>
    rw [List.flatten_cons] at hall ⊢
    have hfirst : (∀ m ∈ s :: (v.run (fates 0) s t).moments, ∃ done, done <+: all ∧ Inv done m) ∧
        Inv (pre ++ bs) (lastOf s (v.run (fates 0) s t).moments) := by
      cases t with
      | ok rs =>
        obtain rfl : rs = bs.map q := hbs
        have hbs' : all = pre ++ bs ++ (steps.flatten ++ post) := by simp [hall]
        exact h.script hbs' (fates 0) hs
      | error e =>
        obtain rfl : bs = [] := List.map_eq_nil_iff.mp hbs.symm
        refine ⟨List.forall_mem_singleton.mpr ⟨pre, ?_, hs⟩, ?_⟩
        · exact ⟨steps.flatten ++ post, by simp [hall]⟩
        · rwa [List.append_nil]
    obtain ⟨hmoments, hend⟩ := hfirst
    have hall' : all = pre ++ bs ++ steps.flatten ++ post := by simp [hall]
    obtain ⟨hrest, hlast⟩ := ih hall' (fun n => fates (n + 1)) hend
    rw [Service.batch]
    constructor
    · intro m hm
      rcases List.mem_cons.mp hm with rfl | hm
      · exact hmoments m List.mem_cons_self
      · rcases List.mem_append.mp hm with hm | hm
        · exact hmoments m (List.mem_cons_of_mem _ hm)
        · exact hrest m (List.mem_cons_of_mem _ hm)
    · dsimp only
      rw [lastOf_append, ← List.append_assoc]
      exact hlast

end Progress

/-- A batch without an error has carried out every request of its tasks, in order. -/
theorem batch_done {fates : ℕ → ℕ → Fate ε} {s : σ} {ts : List (Task ρ ε)}
    (h : ∀ outcome ∈ (v.batch fates s ts).outcomes, outcome = none) :
    (ts.flatMap sent).foldlM (fun s r => v.make r s) s =
      .ok (lastOf s (v.batch fates s ts).moments) := by
  induction ts generalizing fates s with
  | nil => rfl
  | cons t ts ih =>
    rw [Service.batch] at h ⊢
    obtain ⟨hfirst, hrest⟩ := List.forall_mem_cons.mp h
    rw [List.flatMap_cons, List.foldlM_append]
    have hmade : (sent t).foldlM (fun s r => v.make r s) s =
        .ok (lastOf s (v.run (fates 0) s t).moments) := by
      cases t with
      | error e => cases hfirst
      | ok rs => exact script_done hfirst
    rw [hmade]
    refine (ih hrest).trans ?_
    dsimp only
    rw [lastOf_append]

end Kerbridge.Attempts

import Mathlib.Data.List.Forall2
import Mathlib.Data.Nat.Notation

/-!
# Steps that may fail

A computation of several steps ends well exactly when every step does. These
rules take such a computation apart, step by step, without unfolding it.
-/

namespace Kerbridge.Fallible

variable {ε ε' α β : Type}

/-- A value that must be there, or why the computation fails. -/
def require (why : ε) : Option α → Except ε α
  | some a => .ok a
  | none => .error why

/-- A required value is read when it is there. -/
theorem require_ok_iff {why : ε} {x : Option α} {a : α} :
    require why x = .ok a ↔ x = some a := by
  cases x with
  | none => simp [require]
  | some b => simp [require]

/-- After a step that ends well comes the next. -/
theorem ok_bind (a : α) (f : α → Except ε β) : ((.ok a : Except ε α) >>= f) = f a := rfl

/-- Two steps end well when the first does and the second does on its result. -/
theorem bind_ok_iff {x : Except ε α} {f : α → Except ε β} {b : β} :
    (x >>= f) = .ok b ↔ ∃ a, x = .ok a ∧ f a = .ok b := by
  cases x with
  | error e =>
    constructor
    · intro h
      cases h
    · rintro ⟨a, h, _⟩
      cases h
  | ok a =>
    constructor
    · intro h
      exact ⟨a, rfl, h⟩
    · rintro ⟨a', h, hf⟩
      cases h
      exact hf

/-- A refusal under a condition ends well when the condition does not hold and the
rest ends well. -/
theorem refuse_ok_iff {c : Prop} [Decidable c] {e : ε} {x : Except ε α} {a : α} :
    (if c then .error e else x) = .ok a ↔ ¬ c ∧ x = .ok a := by
  by_cases hc : c
  · simp [hc]
  · simp [hc]

/-- The error of a computation does not decide whether it ends well. -/
theorem mapError_ok_iff {x : Except ε α} {f : ε → ε'} {a : α} :
    x.mapError f = .ok a ↔ x = .ok a := by
  cases x with
  | error e =>
    constructor
    · intro h
      cases h
    · intro h
      cases h
  | ok b =>
    constructor
    · intro h
      cases h
      rfl
    · intro h
      cases h
      rfl

/-- A result mapped ends well when the computation does. -/
theorem map_ok_iff {x : Except ε α} {f : α → β} {b : β} :
    x.map f = .ok b ↔ ∃ a, x = .ok a ∧ f a = b := by
  cases x with
  | error e =>
    constructor
    · intro h
      cases h
    · rintro ⟨a, h, _⟩
      cases h
  | ok a =>
    constructor
    · intro h
      exact ⟨a, rfl, Except.ok.inj h⟩
    · rintro ⟨a', h, hf⟩
      cases h
      exact congrArg Except.ok hf

/-- What is left of a computation once its error is dropped. -/
theorem toOption_eq_some_iff {x : Except ε α} {a : α} : x.toOption = some a ↔ x = .ok a := by
  cases x with
  | error e =>
    constructor
    · intro h
      cases h
    · intro h
      cases h
  | ok b =>
    constructor
    · intro h
      cases h
      rfl
    · intro h
      cases h
      rfl

/-- A computation ends in a value with a property, or for a reason that is allowed. -/
def Safe (allowed : ε → Prop) (post : α → Prop) : Except ε α → Prop
  | .ok a => post a
  | .error e => allowed e

section Safety

variable {allowed : ε → Prop} {post : α → Prop}

/-- Two steps are safe when the first is and the second is on its result. -/
theorem Safe.bind {after : β → Prop} {x : Except ε α} {f : α → Except ε β}
    (hx : Safe allowed post x) (hf : ∀ a, post a → Safe allowed after (f a)) :
    Safe allowed after (x >>= f) := by
  cases x with
  | error e => exact hx
  | ok a => exact hf a hx

/-- A result mapped is safe when the computation is. -/
theorem Safe.map {after : β → Prop} {x : Except ε α} {f : α → β} (hx : Safe allowed post x)
    (hf : ∀ a, post a → after (f a)) : Safe allowed after (x.map f) := by
  cases x with
  | error e => exact hx
  | ok a => exact hf a hx

/-- A safe computation promises what follows from its promise. -/
theorem Safe.mono {after : α → Prop} {x : Except ε α} (hx : Safe allowed post x)
    (h : ∀ a, post a → after a) : Safe allowed after x := by
  cases x with
  | error e => exact hx
  | ok a => exact h a hx

/-- A loop whose every step is safe is safe. -/
theorem safe_foldlM {f : α → β → Except ε α} {l : List β} {a : α} (ha : post a)
    (hstep : ∀ a b, b ∈ l → post a → Safe allowed post (f a b)) :
    Safe allowed post (l.foldlM f a) := by
  induction l generalizing a with
  | nil => exact ha
  | cons b l ih =>
    rw [List.foldlM_cons]
    refine (hstep a b List.mem_cons_self ha).bind ?_
    intro a' ha'
    exact ih ha' fun a b hb => hstep a b (List.mem_cons_of_mem _ hb)

end Safety

/-- What every step of a loop keeps, the elements passed in mind, holds after the loop. -/
theorem foldlM_ok_induction (Inv : List α → β → Prop) {f : β → α → Except ε β} {l : List α}
    {b b' : β} (h : l.foldlM f b = .ok b') (hstart : Inv [] b)
    (hstep : ∀ done a b b', Inv done b → f b a = .ok b' → Inv (done ++ [a]) b') : Inv l b' := by
  have hgen : ∀ (rest done : List α) (b : β), Inv done b → rest.foldlM f b = .ok b' →
      Inv (done ++ rest) b' := by
    intro rest
    induction rest with
    | nil =>
      intro done b hb hrest
      cases hrest
      simpa using hb
    | cons a rest ih =>
      intro done b hb hrest
      rw [List.foldlM_cons] at hrest
      obtain ⟨next, hnext, hrest⟩ := bind_ok_iff.mp hrest
      have hdone := ih (done ++ [a]) next (hstep done a b next hb hnext) hrest
      simpa using hdone
  simpa using hgen l [] b hstart h

/-- A step can be taken for all the elements when it can be taken for each of them. -/
theorem mapM_exists_iff {f : α → Except ε β} {l : List α} :
    (∃ l', l.mapM f = .ok l') ↔ ∀ a ∈ l, ∃ b, f a = .ok b := by
  induction l with
  | nil => exact ⟨fun _ => by simp, fun _ => ⟨[], rfl⟩⟩
  | cons a l ih =>
    rw [List.forall_mem_cons, ← ih]
    constructor
    · rintro ⟨l', h⟩
      rw [List.mapM_cons] at h
      obtain ⟨b, hb, hrest⟩ := bind_ok_iff.mp h
      obtain ⟨bs, hbs, -⟩ := bind_ok_iff.mp hrest
      exact ⟨⟨b, hb⟩, bs, hbs⟩
    · rintro ⟨⟨b, hb⟩, bs, hbs⟩
      refine ⟨b :: bs, ?_⟩
      rw [List.mapM_cons, hb, ok_bind, hbs]
      rfl

/-- A step taken for every element ends well when each of them does. -/
theorem mapM_ok_iff {f : α → Except ε β} {l : List α} {l' : List β} :
    l.mapM f = .ok l' ↔ List.Forall₂ (fun a b => f a = .ok b) l l' := by
  induction l generalizing l' with
  | nil =>
    rw [List.mapM_nil, List.forall₂_nil_left_iff]
    constructor
    · intro h
      cases h
      rfl
    · intro h
      rw [h]
      rfl
  | cons a l ih =>
    rw [List.mapM_cons, bind_ok_iff, List.forall₂_cons_left_iff]
    constructor
    · intro h
      obtain ⟨b, hb, hrest⟩ := h
      obtain ⟨bs, hbs, hcons⟩ := bind_ok_iff.mp hrest
      cases hcons
      exact ⟨b, bs, hb, ih.mp hbs, rfl⟩
    · intro h
      obtain ⟨b, bs, hb, hbs, hcons⟩ := h
      rw [hcons]
      exact ⟨b, hb, bind_ok_iff.mpr ⟨bs, ih.mpr hbs, rfl⟩⟩

/-- A check made of every element passes when each of them does. -/
theorem forM_ok_iff {f : α → Except ε Unit} {l : List α} :
    l.forM f = .ok () ↔ ∀ a ∈ l, f a = .ok () := by
  induction l with
  | nil =>
    constructor
    · intro _ a ha
      cases ha
    · intro _
      rfl
  | cons a l ih =>
    change (f a >>= fun _ => l.forM f) = .ok () ↔ _
    rw [bind_ok_iff, List.forall_mem_cons, ← ih]
    constructor
    · intro h
      obtain ⟨u, hu, hrest⟩ := h
      exact ⟨hu, hrest⟩
    · intro h
      exact ⟨(), h.1, h.2⟩

end Kerbridge.Fallible

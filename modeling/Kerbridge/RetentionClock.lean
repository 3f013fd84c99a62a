import Mathlib.Algebra.Group.Nat.Defs
import Kerbridge.RealmState
import Kerbridge.UnicodeText

/-!
# Reading a state marker's age

The one calendar of the realm, read backwards: the seconds a stamped date stands
for, and the whole days since a state marker was stamped.
-/

namespace Kerbridge.RetentionClock

open UnicodeText RealmState

/-- A signed number, as the standard parser reads the few digits of a date. -/
def parseSigned (cs : List Char) : Option ℤ :=
  let (negative, digits) :=
    match cs with
    | '-' :: rest => (true, rest)
    | '+' :: rest => (false, rest)
    | cs => (false, cs)
  if digits.isEmpty || !digits.all Char.isDigit then none
  else
    let n : ℤ := digits.foldl (fun acc c => 10 * acc + (c.toNat - 48)) 0
    some (if negative then -n else n)

/-- The number that digits spell. -/
def digitsValue (cs : List Char) : ℕ := cs.foldl (fun acc c => 10 * acc + (c.toNat - 48)) 0

/-- A digit is one of ten characters. -/
theorem digit_range {c : Char} (h : c.isDigit = true) : 48 ≤ c.toNat ∧ c.toNat ≤ 57 := by
  rw [Char.isDigit_iff_toNat] at h
  exact h

/-- The signed reading of digits is the number they spell. -/
theorem foldl_digits {cs : List Char} (h : ∀ c ∈ cs, c.isDigit = true) :
    cs.foldl (fun acc c => 10 * acc + ((c.toNat : ℤ) - 48)) 0 = digitsValue cs := by
  have hgen : ∀ acc : ℕ, cs.foldl (fun acc c => 10 * acc + ((c.toNat : ℤ) - 48)) (acc : ℤ) =
      (cs.foldl (fun acc c => 10 * acc + (c.toNat - 48)) acc : ℕ) := by
    induction cs with
    | nil =>
      intro acc
      rfl
    | cons c cs ih =>
      intro acc
      obtain ⟨hc, hrest⟩ := List.forall_mem_cons.mp h
      have hrange := digit_range hc
      rw [List.foldl_cons, List.foldl_cons, ← ih hrest]
      congr 1
      omega
  exact hgen 0

/-- So many digits spell a number below that power of ten. -/
theorem digitsValue_lt {cs : List Char} (h : ∀ c ∈ cs, c.isDigit = true) :
    digitsValue cs < 10 ^ cs.length := by
  have hgen : ∀ acc : ℕ,
      cs.foldl (fun acc c => 10 * acc + (c.toNat - 48)) acc < (acc + 1) * 10 ^ cs.length := by
    induction cs with
    | nil =>
      intro acc
      simp
    | cons c cs ih =>
      intro acc
      obtain ⟨hc, hrest⟩ := List.forall_mem_cons.mp h
      have hrange := digit_range hc
      have hstep := ih hrest (10 * acc + (c.toNat - 48))
      have hgrow : (10 * acc + (c.toNat - 48) + 1) * 10 ^ cs.length ≤
          (acc + 1) * 10 * 10 ^ cs.length := Nat.mul_le_mul_right _ (by omega)
      rw [List.foldl_cons, List.length_cons, Nat.pow_succ', ← Nat.mul_assoc]
      exact lt_of_lt_of_le hstep hgrow
  have hzero := hgen 0
  rwa [Nat.zero_add, Nat.one_mul] at hzero

/-- What is read as a signed number: digits, and at most a sign before them. -/
theorem parseSigned_iff {cs : List Char} {n : ℤ} : parseSigned cs = some n ↔
    ∃ digits, digits ≠ [] ∧ (∀ c ∈ digits, c.isDigit = true) ∧
      (cs = digits ∧ n = digitsValue digits ∨ cs = '+' :: digits ∧ n = digitsValue digits ∨
        cs = '-' :: digits ∧ n = -digitsValue digits) := by
  have hread : ∀ (negative : Bool) (digits : List Char),
      (if digits.isEmpty || !digits.all Char.isDigit then none
        else some (if negative then -(digits.foldl (fun acc c => 10 * acc + ((c.toNat : ℤ) - 48)) 0)
          else digits.foldl (fun acc c => 10 * acc + ((c.toNat : ℤ) - 48)) 0)) = some n ↔
      digits ≠ [] ∧ (∀ c ∈ digits, c.isDigit = true) ∧
        n = if negative then -(digitsValue digits : ℤ) else digitsValue digits := by
    intro negative digits
    by_cases hdigits : digits ≠ [] ∧ ∀ c ∈ digits, c.isDigit = true
    · have hall : (digits.isEmpty || !digits.all Char.isDigit) = false := by
        simpa [Bool.or_eq_false_iff] using hdigits
      rw [hall, foldl_digits hdigits.2, if_neg Bool.false_ne_true, Option.some_inj]
      exact ⟨fun h => ⟨hdigits.1, hdigits.2, h.symm⟩, fun h => h.2.2.symm⟩
    · rw [if_pos]
      · constructor
        · intro h
          cases h
        · rintro ⟨hfull, hall, -⟩
          exact absurd ⟨hfull, hall⟩ hdigits
      · simp only [Bool.or_eq_true, List.isEmpty_iff, Bool.not_eq_true', List.all_eq_false]
        by_contra hnone
        push Not at hnone
        exact hdigits ⟨hnone.1, fun c hc => hnone.2 c hc⟩
  unfold parseSigned
  split
  rename_i negative digits hsplit
  rw [hread]
  split at hsplit
  · cases hsplit
    constructor
    · rintro ⟨hfull, hall, hn⟩
      exact ⟨_, hfull, hall, .inr (.inr ⟨rfl, hn⟩)⟩
    · rintro ⟨digits', hfull, hall, ⟨rfl, -⟩ | ⟨heq, -⟩ | ⟨heq, hn⟩⟩
      · exact absurd (hall _ List.mem_cons_self) (by decide)
      · cases heq
      · cases heq
        exact ⟨hfull, hall, hn⟩
  · cases hsplit
    constructor
    · rintro ⟨hfull, hall, hn⟩
      exact ⟨_, hfull, hall, .inr (.inl ⟨rfl, hn⟩)⟩
    · rintro ⟨digits', hfull, hall, ⟨rfl, -⟩ | ⟨heq, hn⟩ | ⟨heq, -⟩⟩
      · exact absurd (hall _ List.mem_cons_self) (by decide)
      · cases heq
        exact ⟨hfull, hall, hn⟩
      · cases heq
  · rename_i hminus hplus
    cases hsplit
    constructor
    · rintro ⟨hfull, hall, hn⟩
      exact ⟨_, hfull, hall, .inl ⟨rfl, hn⟩⟩
    · rintro ⟨digits', hfull, hall, ⟨rfl, hn⟩ | ⟨heq, -⟩ | ⟨heq, -⟩⟩
      · exact ⟨hfull, hall, hn⟩
      · exact absurd heq (hplus _)
      · exact absurd heq (hminus _)
/-- Days from the epoch to a date of the calendar, none for a month or a day that
no calendar has. The divisions after the era are of numbers that are not negative. -/
def daysFromCivil (y m d : ℤ) : Option ℤ :=
  if !(decide (1 ≤ m) && decide (m ≤ 12)) || !(decide (1 ≤ d) && decide (d ≤ 31)) then none
  else
    let y := y - if m ≤ 2 then 1 else 0
    let era := y / 400
    let yoe := y - era * 400
    let mp := if m > 2 then m - 3 else m + 9
    let doy := (153 * mp + 2) / 5 + d - 1
    let doe := yoe * 365 + yoe / 4 - yoe / 100 + doy
    some (era * 146097 + doe - 719468)

/-- A stamped date in seconds since the epoch. A character that is not ASCII leaves a
text that is no stamp whichever unit its length is counted in. -/
def epochFromRfc3339 (s : String) : Option ℕ :=
  match s.toList with
  | [y₁, y₂, y₃, y₄, '-', m₁, m₂, '-', d₁, d₂, 'T', h₁, h₂, ':', n₁, n₂, ':', s₁, s₂, 'Z'] => do
    let days ← daysFromCivil (← parseSigned [y₁, y₂, y₃, y₄]) (← parseSigned [m₁, m₂])
      (← parseSigned [d₁, d₂])
    let h ← parseSigned [h₁, h₂]
    let mi ← parseSigned [n₁, n₂]
    let sec ← parseSigned [s₁, s₂]
    if h > 23 || mi > 59 || sec > 60 then none
    else
      let total := days * 86400 + h * 3600 + mi * 60 + sec
      if total < 0 then none else some total.toNat
  | _ => none

/-- Whole days since a state marker was stamped. -/
def retentionAgeDays (marker : String) (now : ℕ) : Option ℕ := do
  let stamp ← (stripPrefix marker stRetired).or (stripPrefix marker stQuar)
  let stamped ← epochFromRfc3339 stamp
  return (now - stamped) / 86400

/-- A marker stamped in the realm's own form reads as its age. -/
example : retentionAgeDays "kbstate1|retired|2026-07-25T12:00:00Z" (1784980800 + 86400) = some 1 := by
  decide +kernel

end Kerbridge.RetentionClock

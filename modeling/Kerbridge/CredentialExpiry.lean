import Kerbridge.DayArithmetic
import Kerbridge.Fallible

/-!
# The days a credential has left

A date as an operator states it, or as the identity provider reports it, is read as three
numbers of any width and counted back to today. Every term of the count is checked
against its type.
-/

namespace Kerbridge.CredentialExpiry

open UnicodeText RetentionClock DayArithmetic Fallible

/-- The numbers of a bare date: three of them, and nothing else. -/
def dateNumbers (date : String) : Option (ℤ × ℤ × ℤ) :=
  match split '-' date with
  | [y, m, d] => do
    let y ← parseI64 y
    let m ← parseI64 m
    let d ← parseI64 d
    return (y, m, d)
  | _ => none

/-- Days from the epoch for a bare date, none if that is not what it is. -/
def daysFromYmd (date : String) : Except Panic (Option ℤ) :=
  match dateNumbers date with
  | none => .ok none
  | some (y, m, d) => daysFromCivil64 y m d

/-- Days until an expiry the operator stated. -/
def daysRemaining (expires : Option String) (now : UInt64) : Except Panic (Option ℤ) :=
  match expires with
  | none => .ok none
  | some date => do
    match ← daysFromYmd date with
    | none => return none
    | some expiry => return some (← i64 (expiry - (now.toNat / 86400 : ℕ)))

/-- A row of a token list. -/
structure TokenRow where
  /-- When the token lapses, read only if it does. -/
  expires : Option String
  /-- Whether the token expires at all. -/
  expiring : Bool

/-- What a token list says of the credential that read it. -/
inductive Expiry where
  /-- Days until the soonest token expires. -/
  | days (n : ℤ)
  | nonExpiring
  | absent
  deriving DecidableEq

/-- The days a row's token has left, none for a row without a date. -/
def rowDays (now : UInt64) (row : TokenRow) : Except Panic (Option ℤ) :=
  if row.expiring then daysRemaining (row.expires.map (beforeFirst 'T')) now else .ok none

/-- The soonest expiry of a token list. -/
def readExpiry (rows : List TokenRow) (now : UInt64) : Except Panic Expiry :=
  if rows.isEmpty then .ok .absent
  else do
    let days ← rows.mapM (rowDays now)
    match days.reduceOption.min? with
    | none => return .nonExpiring
    | some n => return .days n

/-- A computation whose every term its type holds. -/
def Completes {α : Type} (r : Except Panic α) : Prop := ∃ a, r = .ok a

/-- A date text past the last date whose terms the type holds, its month and day being of a
calendar. -/
def Late (date : String) : Prop := ∃ y m d, dateNumbers date = some (y, m, d) ∧
  (1 ≤ m ∧ m ≤ 12) ∧ (1 ≤ d ∧ d ≤ 31) ∧ ¬NotAfter y m d

/-- The numbers of a date are not negative, and the type holds the year. -/
theorem dateNumbers_range {date : String} {y m d : ℤ} (h : dateNumbers date = some (y, m, d)) :
    0 ≤ y ∧ Within64 y := by
  unfold dateNumbers at h
  split at h
  · rename_i year month day hfields
    cases hyear : parseI64 year with
    | none =>
      rw [hyear] at h
      cases h
    | some n =>
      cases hmonth : parseI64 month with
      | none =>
        rw [hyear, hmonth] at h
        cases h
      | some m' =>
        cases hday : parseI64 day with
        | none =>
          rw [hyear, hmonth, hday] at h
          cases h
        | some d' =>
          rw [hyear, hmonth, hday] at h
          cases h
          obtain ⟨hread, hwithin⟩ := Option.filter_eq_some_iff.mp hyear
          have hsign : '-' ∉ year.toList :=
            notMem_of_mem_split (s := date) (by rw [hfields]; exact List.mem_cons_self)
          refine ⟨?_, of_decide_eq_true hwithin⟩
          obtain ⟨digits, -, -, ⟨-, hvalue⟩ | ⟨-, hvalue⟩ | ⟨hminus, -⟩⟩ := parseSigned_iff.mp hread
          · omega
          · omega
          · rw [hminus] at hsign
            exact absurd List.mem_cons_self hsign
  · cases h

/-- A date not before the year one is less than an era before the era of the epoch. -/
theorem daysFromCivil_low {y m d z : ℤ} (h : daysFromCivil y m d = some z) (hy : 0 ≤ y) :
    -865565 ≤ z := by
  obtain ⟨hm, hd⟩ := daysFromCivil_range h
  obtain ⟨shifted, mp, yoe, doy, doe, hshifted, -, -, -, -, -, -, hdoe, hdays⟩ :=
    daysFromCivil_terms (y := y) hm hd
  have hlow : -1 ≤ shifted := by
    rw [hshifted]
    split <;> omega
  rw [h, Option.some_inj] at hdays
  omega

/-- A date is converted exactly, and overflows when it is late. -/
theorem daysFromYmd_cases (date : String) :
    (Late date ∧ daysFromYmd date = .error .overflow) ∨
    (¬Late date ∧ ∃ found, daysFromYmd date = .ok found ∧
      ∀ z ∈ found, -865565 ≤ z ∧ z + 719468 ≤ 9223372036854775807) := by
  unfold daysFromYmd
  cases hnumbers : dateNumbers date with
  | none =>
    refine .inr ⟨?_, none, rfl, by simp⟩
    rintro ⟨y, m, d, hsome, -⟩
    rw [hnumbers] at hsome
    cases hsome
  | some numbers =>
    obtain ⟨y, m, d⟩ := numbers
    obtain ⟨hlow, hwithin⟩ := dateNumbers_range hnumbers
    dsimp only
    rw [daysFromCivil64_eq hwithin]
    cases hdays : daysFromCivil y m d with
    | none =>
      refine .inr ⟨?_, none, rfl, by simp⟩
      rintro ⟨y', m', d', hsome, hm, hd, -⟩
      cases hnumbers.symm.trans hsome
      obtain ⟨_, hsomeDays⟩ := daysFromCivil_some (y := y) hm hd
      cases hdays.symm.trans hsomeDays
    | some z =>
      obtain ⟨hm, hd⟩ := daysFromCivil_range hdays
      dsimp only
      have hfirst : NotBefore y m d := .inl (by omega)
      by_cases hlast : NotAfter y m d
      · have hheld : Held z := (held_iff hdays).mpr ⟨hfirst, hlast⟩
        refine .inr ⟨?_, some z, by rw [if_pos hheld], ?_⟩
        · rintro ⟨y', m', d', hsome, -, -, hlate⟩
          cases hnumbers.symm.trans hsome
          exact hlate hlast
        · intro z' hz'
          cases hz'
          exact ⟨daysFromCivil_low hdays hlow, hheld.2⟩
      · refine .inl ⟨⟨y, m, d, hnumbers, hm, hd, hlast⟩, ?_⟩
        rw [if_neg]
        intro hheld
        exact hlast ((held_iff hdays).mp hheld).2

/-- A computation that has left its type has not completed. -/
theorem not_completes {α : Type} : ¬Completes (.error .overflow : Except Panic α) := by
  rintro ⟨_, hok⟩
  cases hok

/-- The days a stated date leaves are counted unless the date is late. -/
theorem daysRemaining_completes_iff (expires : Option String) (now : UInt64) :
    Completes (daysRemaining expires now) ↔ ∀ date, expires = some date → ¬Late date := by
  unfold daysRemaining
  cases expires with
  | none => exact ⟨fun _ => nofun, fun _ => ⟨none, rfl⟩⟩
  | some date =>
    dsimp only
    rcases daysFromYmd_cases date with ⟨hlate, hstop⟩ | ⟨hearly, found, hfound, hrange⟩
    · rw [hstop]
      exact ⟨fun h => absurd h not_completes, fun h => absurd hlate (h date rfl)⟩
    · rw [hfound]
      refine ⟨fun _ date' hdate => by cases hdate; exact hearly, fun _ => ?_⟩
      cases found with
      | none => exact ⟨none, rfl⟩
      | some expiry =>
        obtain ⟨hlow, hhigh⟩ := hrange expiry rfl
        have hnow := now.toNat_lt
        have hwithin : Within64 (expiry - (now.toNat / 86400 : ℕ)) := by
          unfold Within64
          omega
        refine ⟨some (expiry - (now.toNat / 86400 : ℕ)), ?_⟩
        show (i64 _ >>= _) = _
        rw [i64_bind hwithin]
        rfl

/-- A row's days are counted unless the row is of a token that expires on a late date. -/
theorem rowDays_completes_iff (row : TokenRow) (now : UInt64) : Completes (rowDays now row) ↔
    (row.expiring = true → ∀ stamp, row.expires = some stamp → ¬Late (beforeFirst 'T' stamp)) := by
  unfold rowDays
  split
  · rename_i hexpiring
    rw [daysRemaining_completes_iff]
    constructor
    · intro h _ stamp hstamp
      exact h _ (by rw [hstamp]; rfl)
    · intro h date hdate
      obtain ⟨stamp, hstamp, rfl⟩ := Option.map_eq_some_iff.mp hdate
      exact h hexpiring stamp hstamp
  · rename_i hlasting
    exact ⟨fun _ h => absurd h hlasting, fun _ => ⟨none, rfl⟩⟩

/-- A token list is measured unless one of its rows cannot be. -/
theorem readExpiry_completes_iff (rows : List TokenRow) (now : UInt64) :
    Completes (readExpiry rows now) ↔ ∀ row ∈ rows, Completes (rowDays now row) := by
  unfold readExpiry
  split
  · rename_i hempty
    rw [List.isEmpty_iff] at hempty
    subst hempty
    exact ⟨fun _ => by simp, fun _ => ⟨_, rfl⟩⟩
  · constructor
    · rintro ⟨expiry, hexpiry⟩
      obtain ⟨days, hdays, -⟩ := bind_ok_iff.mp hexpiry
      exact mapM_exists_iff.mp ⟨days, hdays⟩
    · intro h
      obtain ⟨days, hdays⟩ := mapM_exists_iff.mpr h
      rw [hdays]
      cases hsoonest : days.reduceOption.min? with
      | none => exact ⟨.nonExpiring, by rw [ok_bind, hsoonest]; rfl⟩
      | some n => exact ⟨.days n, by rw [ok_bind, hsoonest]; rfl⟩

/-- A bare date is counted, a stated one is counted back to today, and a token list is
measured, each without a term leaving its type, exactly when no date in it is late. -/
theorem dates_complete_iff (date : String) (expires : Option String) (rows : List TokenRow)
    (now : UInt64) :
    (Completes (daysFromYmd date) ↔ ¬Late date) ∧
    (Completes (daysRemaining expires now) ↔ ∀ stated, expires = some stated → ¬Late stated) ∧
    (Completes (readExpiry rows now) ↔ ∀ row ∈ rows, row.expiring = true →
      ∀ stamp, row.expires = some stamp → ¬Late (beforeFirst 'T' stamp)) := by
  refine ⟨?_, daysRemaining_completes_iff expires now, ?_⟩
  · rcases daysFromYmd_cases date with ⟨hlate, hstop⟩ | ⟨hearly, found, hfound, -⟩
    · rw [hstop]
      exact ⟨fun h => absurd h not_completes, fun h => absurd hlate h⟩
    · exact ⟨fun _ => hearly, fun _ => ⟨found, hfound⟩⟩
  · rw [readExpiry_completes_iff]
    exact forall₂_congr fun row _ => rowDays_completes_iff row now

/-- The day after the last one leaves the type, as a bare date and as a stated expiry. -/
theorem daysFromYmd_overflows : ¬∀ (date : String) (now : UInt64),
    Completes (daysFromYmd date) ∧ Completes (daysRemaining (some date) now) := by
  intro h
  obtain ⟨found, hfound⟩ := (h "25252734927766554-09-26" 0).1
  have hstop : daysFromYmd "25252734927766554-09-26" = .error .overflow := by
    decide
  rw [hstop] at hfound
  cases hfound

end Kerbridge.CredentialExpiry

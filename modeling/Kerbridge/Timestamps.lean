import Kerbridge.DayArithmetic
import Kerbridge.KrbCred
import Kerbridge.LossyText

/-!
# Timestamps, written and read

A timestamp is written in one fixed form, and read back by its bytes: the
separators by their places, the fields by slices between them, each left to the
standard parser of signed numbers. No slice cuts a character, so the reading never
panics; and what it accepts beyond the fixed form are fields of a sign and a digit.
-/

namespace Kerbridge.Timestamps

open UnicodeText RetentionClock DayArithmetic LossyText Krbcred

/-- A number with zeros before it up to a width, a sign before the zeros. -/
def zeroPadded (width : ℕ) (n : ℤ) : String :=
  if n < 0 then "-" ++ padded (width - 1) n.natAbs else padded width n.natAbs

/-- A time written out. -/
def rfc3339 (epoch : UInt32) : Except Panic String := do
  let days : ℤ := (epoch.toNat / 86400 : ℕ)
  let secs := epoch.toNat % 86400
  let (year, month, day) ← civilFromDays64 days
  return zeroPadded 4 year ++ "-" ++ zeroPadded 2 month ++ "-" ++ zeroPadded 2 day ++ "T" ++
    padded 2 (secs / 3600) ++ ":" ++ padded 2 (secs / 60 % 60) ++ ":" ++ padded 2 (secs % 60) ++ "Z"

/-- The characters of a text from a byte on. -/
def charsFrom : ℕ → List Char → Except Panic (List Char)
  | 0, cs => .ok cs
  | _ + 1, [] => .error .slice
  | n + 1, c :: cs => if c.utf8Size ≤ n + 1 then charsFrom (n + 1 - c.utf8Size) cs else .error .slice

/-- The characters of a text up to a byte. -/
def charsUpTo : ℕ → List Char → Except Panic (List Char)
  | 0, _ => .ok []
  | _ + 1, [] => .error .slice
  | n + 1, c :: cs =>
    if c.utf8Size ≤ n + 1 then (charsUpTo (n + 1 - c.utf8Size) cs).map (c :: ·) else .error .slice

/-- `&s[from..to]`, which panics where a bound is inside a character. -/
def slice (s : String) (first last : ℕ) : Except Panic String := do
  let rest ← charsFrom first s.toList
  return String.ofList (← charsUpTo (last - first) rest)

/-- `b[i]`, which panics behind the end. -/
def byteAt (b : List UInt8) (i : ℕ) : Except Panic UInt8 :=
  match b[i]? with
  | some byte => .ok byte
  | none => .error .index

/-- The separators of the form, and their places. -/
def separators : List (ℕ × UInt8) :=
  [(4, 0x2d), (7, 0x2d), (10, 0x54), (13, 0x3a), (16, 0x3a), (19, 0x5a)]

/-- Whether a separator is in its place. -/
def separated (b : List UInt8) (sep : ℕ × UInt8) : Except Panic Bool := do
  return (← byteAt b sep.1) == sep.2

/-- A field, read as a number. -/
def num (s : String) (first last : ℕ) : Except Panic (Option ℤ) := do
  return parseI64 (← slice s first last)

/-- Seconds since the epoch of a time of a day, each term checked. -/
def secondsOf (days h mi sec : ℤ) : Except Panic (Option ℕ) :=
  if h > 23 || mi > 59 || sec > 60 then .ok none
  else do
    let daySecs ← i64 (days * 86400)
    let hourSecs ← i64 (h * 3600)
    let hours ← i64 (daySecs + hourSecs)
    let minuteSecs ← i64 (mi * 60)
    let minutes ← i64 (hours + minuteSecs)
    let total ← i64 (minutes + sec)
    return if total < 0 then none else some total.toNat

/-- A written time read back, with everything that could stop the reading. -/
def epochFromRfc3339Bytes (s : String) : Except Panic (Option ℕ) := do
  if (bytesOf s).length ≠ 20 then return none
  if !(← separators.allM (separated (bytesOf s))) then return none
  let some y ← num s 0 4 | return none
  let some m ← num s 5 7 | return none
  let some d ← num s 8 10 | return none
  let some days ← daysFromCivil64 y m d | return none
  let some h ← num s 11 13 | return none
  let some mi ← num s 14 16 | return none
  let some sec ← num s 17 19 | return none
  secondsOf days h mi sec

/-- The fields of a text with the separators in place. -/
structure Fields where
  year : List Char
  month : List Char
  day : List Char
  hour : List Char
  minute : List Char
  second : List Char

/-- The text of the fields. -/
def Fields.text (f : Fields) : List Char :=
  f.year ++ '-' :: (f.month ++ '-' :: (f.day ++ 'T' :: (f.hour ++ ':' :: (f.minute ++
    ':' :: (f.second ++ ['Z'])))))

/-- The fields after the year. -/
def Fields.pairs (f : Fields) : List (List Char) := [f.month, f.day, f.hour, f.minute, f.second]

/-- Digits, so many of them. -/
def Digits (n : ℕ) (cs : List Char) : Prop := cs.length = n ∧ ∀ c ∈ cs, c.isDigit = true

instance (n : ℕ) (cs : List Char) : Decidable (Digits n cs) :=
  decidable_of_iff (cs.length = n ∧ cs.all Char.isDigit = true) (and_congr_right' List.all_eq_true)

/-- A time in the fixed form: digits in every place of a digit, and each field within its
bounds. -/
structure Stamp (s : String) (f : Fields) : Prop where
  text : s.toList = f.text
  year : Digits 4 f.year
  pairs : ∀ cs ∈ f.pairs, Digits 2 cs
  month : 1 ≤ digitsValue f.month ∧ digitsValue f.month ≤ 12
  day : 1 ≤ digitsValue f.day ∧ digitsValue f.day ≤ 31
  hour : digitsValue f.hour ≤ 23
  minute : digitsValue f.minute ≤ 59
  second : digitsValue f.second ≤ 60

/-- A text in which one of the two-digit fields is a sign and a digit: the fields as they are
read are within their bounds, and the time is not before the epoch. -/
structure SignedStamp (s : String) (f : Fields) : Prop where
  text : s.toList = f.text
  year : Digits 4 f.year
  widths : ∀ cs ∈ f.pairs, cs.length = 2
  signed : ∃ cs ∈ f.pairs, '+' ∈ cs ∨ '-' ∈ cs
  read : ∃ m d h mi sec, parseSigned f.month = some m ∧ parseSigned f.day = some d ∧
    parseSigned f.hour = some h ∧ parseSigned f.minute = some mi ∧
    parseSigned f.second = some sec ∧ (1 ≤ m ∧ m ≤ 12) ∧ (1 ≤ d ∧ d ≤ 31) ∧ h ≤ 23 ∧
    mi ≤ 59 ∧ sec ≤ 60 ∧ (1970 < digitsValue f.year ∨ digitsValue f.year = 1970 ∧
      (1 < m ∨ 1 < d ∨ 0 ≤ h * 3600 + mi * 60 + sec))

/-- The octets of characters. -/
def size (cs : List Char) : ℕ := (cs.flatMap String.utf8EncodeChar).length

theorem size_nil : size [] = 0 := rfl

theorem size_cons (c : Char) (cs : List Char) : size (c :: cs) = c.utf8Size + size cs := by
  unfold size
  rw [List.flatMap_cons, List.length_append, String.length_utf8EncodeChar]

theorem size_append (a b : List Char) : size (a ++ b) = size a + size b := by
  unfold size
  rw [List.flatMap_append, List.length_append]

/-- A slice begins behind the characters that its first bound counts. -/
theorem charsFrom_append (a b : List Char) : charsFrom (size a) (a ++ b) = .ok b := by
  induction a with
  | nil =>
    rw [size_nil, List.nil_append]
    cases b with
    | nil => rfl
    | cons c b => rfl
  | cons c a ih =>
    have hpos := c.utf8Size_pos
    obtain ⟨n, hn⟩ : ∃ n, size (c :: a) = n + 1 := ⟨size (c :: a) - 1, by rw [size_cons]; omega⟩
    rw [hn, List.cons_append, charsFrom]
    rw [size_cons] at hn
    rw [if_pos (by omega), show n + 1 - c.utf8Size = size a by omega, ih]

/-- A slice ends with the characters that its length counts. -/
theorem charsUpTo_append (a b : List Char) : charsUpTo (size a) (a ++ b) = .ok a := by
  induction a with
  | nil =>
    rw [size_nil, List.nil_append]
    cases b with
    | nil => rfl
    | cons c b => rfl
  | cons c a ih =>
    have hpos := c.utf8Size_pos
    obtain ⟨n, hn⟩ : ∃ n, size (c :: a) = n + 1 := ⟨size (c :: a) - 1, by rw [size_cons]; omega⟩
    rw [hn, List.cons_append, charsUpTo]
    rw [size_cons] at hn
    rw [if_pos (by omega), show n + 1 - c.utf8Size = size a by omega, ih]
    rfl

/-- Separators within the text are looked at without a panic. -/
theorem separators_allM {b : List UInt8} {l : List (ℕ × UInt8)} (h : ∀ sep ∈ l, sep.1 < b.length) :
    l.allM (separated b) = .ok (l.all fun sep => b[sep.1]? == some sep.2) := by
  induction l with
  | nil => rfl
  | cons sep l ih =>
    obtain ⟨hsep, hrest⟩ := List.forall_mem_cons.mp h
    have hbyte : separated b sep = .ok (b[sep.1]? == some sep.2) := by
      unfold separated byteAt
      rw [List.getElem?_eq_getElem hsep]
      rfl
    rw [List.allM, hbyte, List.all_cons]
    show (match (b[sep.1]? == some sep.2) with | true => _ | false => _) = _
    cases (b[sep.1]? == some sep.2) with
    | true => exact ih hrest
    | false => rfl

/-- A text cut at an ASCII octet, with the octets behind it. -/
theorem cut_at {cs : List Char} {k : ℕ} {b : UInt8} (hb : b < 128)
    (hk : (cs.flatMap String.utf8EncodeChar)[k]? = some b) :
    ∃ before after, cs = before ++ Char.ofNat b.toNat :: after ∧ size before = k ∧
      ∀ i, k < i → (cs.flatMap String.utf8EncodeChar)[i]? =
        (after.flatMap String.utf8EncodeChar)[i - (k + 1)]? := by
  obtain ⟨before, after, hcs, hlength, hrest⟩ := split_at_octet hk hb
  refine ⟨before, after, hcs, hlength, fun i hi => ?_⟩
  rw [← hrest, List.getElem?_drop, show k + 1 + (i - (k + 1)) = i by omega]

/-- A text with the separators in place is that of fields of their widths. -/
theorem fields_of_separators {cs : List Char} (hsize : size cs = 20)
    (h : ∀ sep ∈ separators, (cs.flatMap String.utf8EncodeChar)[sep.1]? = some sep.2) :
    ∃ f : Fields, cs = f.text ∧ size f.year = 4 ∧ ∀ g ∈ f.pairs, size g = 2 := by
  simp only [separators, List.forall_mem_cons] at h
  obtain ⟨h₄, h₇, h₁₀, h₁₃, h₁₆, h₁₉, -⟩ := h
  obtain ⟨y, r₁, hcs, hy, hrest⟩ := cut_at (by decide) h₄
  rw [hrest _ (by decide)] at h₇ h₁₀ h₁₃ h₁₆ h₁₉
  obtain ⟨m, r₂, rfl, hm, hrest⟩ := cut_at (by decide) h₇
  rw [hrest _ (by decide)] at h₁₀ h₁₃ h₁₆ h₁₉
  obtain ⟨d, r₃, rfl, hd, hrest⟩ := cut_at (by decide) h₁₀
  rw [hrest _ (by decide)] at h₁₃ h₁₆ h₁₉
  obtain ⟨h, r₄, rfl, hh, hrest⟩ := cut_at (by decide) h₁₃
  rw [hrest _ (by decide)] at h₁₆ h₁₉
  obtain ⟨n, r₅, rfl, hn, hrest⟩ := cut_at (by decide) h₁₆
  rw [hrest _ (by decide)] at h₁₉
  obtain ⟨c, r₆, rfl, hc, -⟩ := cut_at (by decide) h₁₉
  refine ⟨⟨y, m, d, h, n, c⟩, ?_, hy, ?_⟩
  · have hnothing : r₆ = [] := by
      rw [hcs] at hsize
      simp only [size_append, size_cons] at hsize
      have hdash := (Char.ofNat (0x2d : UInt8).toNat).utf8Size_pos
      have htee := (Char.ofNat (0x54 : UInt8).toNat).utf8Size_pos
      have hcolon := (Char.ofNat (0x3a : UInt8).toNat).utf8Size_pos
      have hzed := (Char.ofNat (0x5a : UInt8).toNat).utf8Size_pos
      cases r₆ with
      | nil => rfl
      | cons last r₆ =>
        have hlast := last.utf8Size_pos
        rw [size_cons] at hsize
        omega
    rw [hcs, hnothing]
    rfl
  · simp only [Fields.pairs, List.forall_mem_cons]
    exact ⟨hm, hd, hh, hn, hc, by simp⟩

/-- The seconds of a time of a day on unbounded integers. -/
def timeOf (days h mi sec : ℤ) : Option ℕ :=
  if h > 23 || mi > 59 || sec > 60 then none
  else
    let total := days * 86400 + h * 3600 + mi * 60 + sec
    if total < 0 then none else some total.toNat

/-- What the fields of a text are read as. -/
def Fields.seconds (f : Fields) : Option ℕ := do
  let y ← parseSigned f.year
  let m ← parseSigned f.month
  let d ← parseSigned f.day
  let days ← daysFromCivil y m d
  let h ← parseSigned f.hour
  let mi ← parseSigned f.minute
  let sec ← parseSigned f.second
  timeOf days h mi sec

/-- A short field is read as a small number. -/
theorem parseSigned_small {cs : List Char} {n : ℤ} (h : parseSigned cs = some n)
    (hlength : cs.length ≤ 4) : -9999 ≤ n ∧ n ≤ 9999 := by
  obtain ⟨digits, -, hall, hcases⟩ := parseSigned_iff.mp h
  have hshort : digits.length ≤ 4 := by
    rcases hcases with ⟨rfl, -⟩ | ⟨rfl, -⟩ | ⟨rfl, -⟩
    · exact hlength
    · rw [List.length_cons] at hlength
      omega
    · rw [List.length_cons] at hlength
      omega
  have hvalue := digitsValue_lt hall
  have hpower : 10 ^ digits.length ≤ 10 ^ 4 := Nat.pow_le_pow_right (by omega) hshort
  rcases hcases with ⟨-, rfl⟩ | ⟨-, rfl⟩ | ⟨-, rfl⟩
  · omega
  · omega
  · omega

/-- A short field is read alike whatever the width of its type. -/
theorem parseI64_short {cs : List Char} (hlength : cs.length ≤ 4) :
    parseI64 (String.ofList cs) = parseSigned cs := by
  unfold parseI64
  rw [String.toList_ofList]
  cases h : parseSigned cs with
  | none => rfl
  | some n =>
    obtain ⟨hlow, hhigh⟩ := parseSigned_small h hlength
    rw [Option.filter_some, if_pos]
    rw [decide_eq_true_eq, Within64]
    omega

/-- A text is no longer in characters than in octets. -/
theorem length_le_size (cs : List Char) : cs.length ≤ size cs := by
  induction cs with
  | nil => exact Nat.le_refl _
  | cons c cs ih =>
    have hpos := c.utf8Size_pos
    rw [List.length_cons, size_cons]
    omega

/-- A field of a text, by the octets before it and its own, and the separator behind it. -/
def Cut (cs : List Char) (start : ℕ) (field : List Char) (sep : Char) : Prop :=
  ∃ before after, cs = before ++ (field ++ sep :: after) ∧ size before = start

/-- A short field is read off without a panic. -/
theorem Cut.num {s : String} {start last : ℕ} {field : List Char} {sep : Char}
    (h : Cut s.toList start field sep) (hlast : start + size field = last) (hshort : size field ≤ 4) :
    num s start last = .ok (parseSigned field) := by
  obtain ⟨before, after, hs, hstart⟩ := h
  unfold Timestamps.num slice
  rw [hs, ← hlast, ← hstart, charsFrom_append, Nat.add_sub_cancel_left]
  show (charsUpTo (size field) (field ++ sep :: after) >>= _) >>= _ = _
  rw [charsUpTo_append]
  show Except.ok (parseI64 (String.ofList field)) = _
  rw [parseI64_short (le_trans (length_le_size field) hshort)]

/-- The octet of the separator behind a field. -/
theorem Cut.octet {cs : List Char} {start last : ℕ} {field : List Char} {sep : Char} {b : UInt8}
    (h : Cut cs start field sep) (hsep : String.utf8EncodeChar sep = [b])
    (hlast : start + size field = last) : (cs.flatMap String.utf8EncodeChar)[last]? = some b := by
  obtain ⟨before, after, rfl, hstart⟩ := h
  have hsize : ((before ++ field).flatMap String.utf8EncodeChar).length = last := by
    rw [← hlast, ← hstart, ← size_append]
    rfl
  rw [← List.append_assoc, List.flatMap_append, List.flatMap_cons, hsep,
    List.getElem?_append_right (by omega), hsize, Nat.sub_self]
  rfl

/-- The fields of a text lie between its separators. -/
theorem Fields.cuts {f : Fields} (hyear : size f.year = 4) (hpairs : ∀ g ∈ f.pairs, size g = 2) :
    Cut f.text 0 f.year '-' ∧ Cut f.text 5 f.month '-' ∧ Cut f.text 8 f.day 'T' ∧
      Cut f.text 11 f.hour ':' ∧ Cut f.text 14 f.minute ':' ∧ Cut f.text 17 f.second 'Z' := by
  simp only [Fields.pairs, List.forall_mem_cons] at hpairs
  obtain ⟨hmonth, hday, hhour, hminute, -⟩ := hpairs
  have hone : size ['-'] = 1 ∧ size ['T'] = 1 ∧ size [':'] = 1 := by decide
  obtain ⟨hdash, htee, hcolon⟩ := hone
  refine ⟨⟨[], _, rfl, rfl⟩, ⟨f.year ++ ['-'], f.day ++ 'T' :: (f.hour ++ ':' :: (f.minute ++
    ':' :: (f.second ++ ['Z']))), by simp [Fields.text], ?_⟩,
    ⟨f.year ++ ['-'] ++ f.month ++ ['-'], f.hour ++ ':' :: (f.minute ++ ':' :: (f.second ++ ['Z'])),
      by simp [Fields.text], ?_⟩,
    ⟨f.year ++ ['-'] ++ f.month ++ ['-'] ++ f.day ++ ['T'], f.minute ++ ':' :: (f.second ++ ['Z']),
      by simp [Fields.text], ?_⟩,
    ⟨f.year ++ ['-'] ++ f.month ++ ['-'] ++ f.day ++ ['T'] ++ f.hour ++ [':'], f.second ++ ['Z'],
      by simp [Fields.text], ?_⟩,
    ⟨f.year ++ ['-'] ++ f.month ++ ['-'] ++ f.day ++ ['T'] ++ f.hour ++ [':'] ++ f.minute ++ [':'], [],
      by simp [Fields.text], ?_⟩⟩
  all_goals simp only [size_append, hyear, hmonth, hday, hhour, hminute, hdash, htee, hcolon]

/-- The day number of a date of a small year is small, and its type holds its terms. -/
theorem daysFromCivil64_small {y m d : ℤ} (h : -9999 ≤ y ∧ y ≤ 9999) :
    daysFromCivil64 y m d = .ok (daysFromCivil y m d) ∧
      ∀ z, daysFromCivil y m d = some z → -9999999 ≤ z ∧ z ≤ 9999999 := by
  obtain ⟨hlow, hhigh⟩ := h
  have hwithin : Within64 y := by
    unfold Within64
    omega
  rw [daysFromCivil64_eq hwithin]
  cases hdays : daysFromCivil y m d with
  | none => exact ⟨rfl, by simp⟩
  | some z =>
    obtain ⟨hm, hd⟩ := daysFromCivil_range hdays
    obtain ⟨shifted, _, _, _, doe, hshifted, -, -, -, -, -, -, hdoe, hterms⟩ :=
      daysFromCivil_terms (y := y) hm hd
    rw [hdays, Option.some_inj] at hterms
    have hyears : y - 1 ≤ shifted ∧ shifted ≤ y := by
      rw [hshifted]
      split <;> omega
    have hz : -9999999 ≤ z ∧ z ≤ 9999999 := by omega
    dsimp only
    refine ⟨by rw [if_pos (show Held z by unfold Held; omega)], ?_⟩
    rintro z' hz'
    cases hz'
    exact hz

/-- The arithmetic of a time of small numbers stays within its type. -/
theorem secondsOf_small {days h mi sec : ℤ} (hdays : -9999999 ≤ days ∧ days ≤ 9999999)
    (hh : -9999 ≤ h ∧ h ≤ 9999) (hmi : -9999 ≤ mi ∧ mi ≤ 9999) (hsec : -9999 ≤ sec ∧ sec ≤ 9999) :
    secondsOf days h mi sec = .ok (timeOf days h mi sec) := by
  unfold secondsOf timeOf
  split
  · rfl
  · rw [i64_bind (by unfold Within64; omega), i64_bind (by unfold Within64; omega),
      i64_bind (by unfold Within64; omega), i64_bind (by unfold Within64; omega),
      i64_bind (by unfold Within64; omega), i64_bind (by unfold Within64; omega)]
    rfl

/-- A text of fields of their widths is read without a panic, as its fields are. -/
theorem epochFromRfc3339Bytes_text {s : String} {f : Fields} (hs : s.toList = f.text)
    (hyear : size f.year = 4) (hpairs : ∀ g ∈ f.pairs, size g = 2) :
    epochFromRfc3339Bytes s = .ok f.seconds := by
  obtain ⟨hmonth, hday, hhour, hminute, hsecond, -⟩ : size f.month = 2 ∧ size f.day = 2 ∧
      size f.hour = 2 ∧ size f.minute = 2 ∧ size f.second = 2 ∧ ∀ g ∈ ([] : List (List Char)), size g = 2 := by
    simpa only [Fields.pairs, List.forall_mem_cons] using hpairs
  have hbytes : bytesOf s = f.text.flatMap String.utf8EncodeChar := by
    unfold bytesOf
    rw [hs]
  have hlength : (bytesOf s).length = 20 := by
    rw [hbytes]
    show size f.text = 20
    simp only [Fields.text, size_append, size_cons, size_nil, hyear, hmonth, hday, hhour, hminute,
      hsecond]
    rfl
  obtain ⟨cy, cm, cd, ch, cn, cs⟩ := Fields.cuts hyear hpairs
  have hplaces : ∀ sep ∈ separators, (bytesOf s)[sep.1]? = some sep.2 := by
    rw [hbytes]
    simp only [separators, List.forall_mem_cons]
    exact ⟨cy.octet rfl (by rw [hyear]), cm.octet rfl (by rw [hmonth]), cd.octet rfl (by rw [hday]),
      ch.octet rfl (by rw [hhour]), cn.octet rfl (by rw [hminute]), cs.octet rfl (by rw [hsecond]),
      by simp⟩
  rw [← hs] at cy cm cd ch cn cs
  have hchecked : separators.allM (separated (bytesOf s)) = .ok true := by
    rw [separators_allM (by rw [hlength]; decide)]
    congr 1
    rw [List.all_eq_true]
    intro sep hsep
    rw [hplaces sep hsep]
    exact beq_self_eq_true _
  unfold epochFromRfc3339Bytes Fields.seconds
  rw [if_neg (not_not_intro hlength), hchecked, cy.num (by rw [hyear]) (by omega),
    cm.num (by rw [hmonth]) (by omega), cd.num (by rw [hday]) (by omega),
    ch.num (by rw [hhour]) (by omega), cn.num (by rw [hminute]) (by omega),
    cs.num (by rw [hsecond]) (by omega)]
  have hshort : ∀ {g : List Char} {n : ℤ}, size g ≤ 4 → parseSigned g = some n →
      -9999 ≤ n ∧ n ≤ 9999 :=
    fun {g} {n} hg hn => parseSigned_small hn (le_trans (length_le_size g) hg)
  cases hy : parseSigned f.year with
  | none => rfl
  | some y =>
    cases hm : parseSigned f.month with
    | none => rfl
    | some m =>
      cases hd : parseSigned f.day with
      | none => rfl
      | some d =>
        obtain ⟨hexact, hsmall⟩ := daysFromCivil64_small (m := m) (d := d) (hshort (by omega) hy)
        show (daysFromCivil64 y m d >>= _) = .ok (daysFromCivil y m d >>= _)
        rw [hexact]
        cases hdays : daysFromCivil y m d with
        | none => rfl
        | some days =>
          cases hh : parseSigned f.hour with
          | none => rfl
          | some h =>
            cases hmi : parseSigned f.minute with
            | none => rfl
            | some mi =>
              cases hsec : parseSigned f.second with
              | none => rfl
              | some sec =>
                exact secondsOf_small (hsmall days hdays) (hshort (by omega) hh)
                  (hshort (by omega) hmi) (hshort (by omega) hsec)

/-- A text is read without a panic: as its fields when it has the separators in place, and
refused when it has not. -/
theorem epochFromRfc3339Bytes_cases (s : String) :
    (epochFromRfc3339Bytes s = .ok none ∧ ¬∃ f : Fields, s.toList = f.text ∧ size f.year = 4 ∧
      ∀ g ∈ f.pairs, size g = 2) ∨
    ∃ f : Fields, s.toList = f.text ∧ size f.year = 4 ∧ (∀ g ∈ f.pairs, size g = 2) ∧
      epochFromRfc3339Bytes s = .ok f.seconds := by
  by_cases hfields : ∃ f : Fields, s.toList = f.text ∧ size f.year = 4 ∧ ∀ g ∈ f.pairs, size g = 2
  · obtain ⟨f, hs, hyear, hpairs⟩ := hfields
    exact .inr ⟨f, hs, hyear, hpairs, epochFromRfc3339Bytes_text hs hyear hpairs⟩
  · refine .inl ⟨?_, hfields⟩
    unfold epochFromRfc3339Bytes
    by_cases hlength : (bytesOf s).length = 20
    · rw [if_neg (not_not_intro hlength), separators_allM (by rw [hlength]; decide)]
      cases hplaced : separators.all fun sep => (bytesOf s)[sep.1]? == some sep.2 with
      | false => rfl
      | true =>
        rw [List.all_eq_true] at hplaced
        exact absurd (fields_of_separators hlength fun sep hsep =>
          eq_of_beq (hplaced sep hsep)) hfields
    · rw [if_pos hlength]
      rfl

/-- A field that is read holds as many octets as characters. -/
theorem size_of_parseSigned {cs : List Char} {n : ℤ} (h : parseSigned cs = some n) :
    size cs = cs.length := by
  have hdigits : ∀ {ds : List Char}, (∀ c ∈ ds, c.isDigit = true) → size ds = ds.length := by
    intro ds hds
    induction ds with
    | nil => rfl
    | cons c ds ih =>
      obtain ⟨hc, hrest⟩ := List.forall_mem_cons.mp hds
      obtain ⟨hlow, hhigh⟩ := digit_range hc
      have hone : c.utf8Size = 1 := by
        rw [Char.utf8Size_eq_one_iff, UInt32.le_iff_toNat_le]
        exact le_trans hhigh (by decide)
      rw [size_cons, List.length_cons, ih hrest, hone]
      omega
  have hsign : '+'.utf8Size = 1 ∧ '-'.utf8Size = 1 := by decide
  obtain ⟨digits, -, hall, ⟨rfl, -⟩ | ⟨rfl, -⟩ | ⟨rfl, -⟩⟩ := parseSigned_iff.mp h
  · exact hdigits hall
  · rw [size_cons, hdigits hall, hsign.1, List.length_cons, Nat.add_comm]
  · rw [size_cons, hdigits hall, hsign.2, List.length_cons, Nat.add_comm]

/-- The numbers of a time that is read. -/
structure Fields.Read (f : Fields) (y m d h mi sec days : ℤ) : Prop where
  year : parseSigned f.year = some y
  month : parseSigned f.month = some m
  day : parseSigned f.day = some d
  hour : parseSigned f.hour = some h
  minute : parseSigned f.minute = some mi
  second : parseSigned f.second = some sec
  days : daysFromCivil y m d = some days

/-- A time is read from its numbers. -/
theorem Fields.seconds_iff {f : Fields} {n : ℕ} : f.seconds = some n ↔
    ∃ y m d h mi sec days, f.Read y m d h mi sec days ∧ timeOf days h mi sec = some n := by
  unfold Fields.seconds
  simp only [Option.bind_eq_bind, Option.bind_eq_some_iff]
  constructor
  · rintro ⟨y, hy, m, hm, d, hd, days, hdays, h, hh, mi, hmi, sec, hsec, htime⟩
    exact ⟨y, m, d, h, mi, sec, days, ⟨hy, hm, hd, hh, hmi, hsec, hdays⟩, htime⟩
  · rintro ⟨y, m, d, h, mi, sec, days, hread, htime⟩
    exact ⟨y, hread.year, m, hread.month, d, hread.day, days, hread.days, h, hread.hour, mi,
      hread.minute, sec, hread.second, htime⟩

/-- The seconds of a time within its bounds. -/
theorem timeOf_iff {days h mi sec : ℤ} {n : ℕ} : timeOf days h mi sec = some n ↔
    h ≤ 23 ∧ mi ≤ 59 ∧ sec ≤ 60 ∧ days * 86400 + h * 3600 + mi * 60 + sec = n := by
  unfold timeOf
  split
  · rename_i hrange
    simp only [Bool.or_eq_true, decide_eq_true_eq] at hrange
    constructor
    · intro hnone
      cases hnone
    · omega
  · rename_i hrange
    simp only [Bool.or_eq_true, decide_eq_true_eq] at hrange
    dsimp only
    split
    · constructor
      · intro hnone
        cases hnone
      · omega
    · rw [Option.some_inj]
      omega

/-- The widths of a text that is read, in characters and in octets. -/
theorem Fields.Read.widths {f : Fields} {y m d h mi sec days : ℤ} (hread : f.Read y m d h mi sec days) :
    size f.year = f.year.length ∧ ∀ g ∈ f.pairs, size g = g.length := by
  refine ⟨size_of_parseSigned hread.year, ?_⟩
  simp only [Fields.pairs, List.forall_mem_cons]
  exact ⟨size_of_parseSigned hread.month, size_of_parseSigned hread.day,
    size_of_parseSigned hread.hour, size_of_parseSigned hread.minute,
    size_of_parseSigned hread.second, by simp⟩

/-- A text is accepted as fields of the widths of the form, in characters. -/
theorem accepted_iff {s : String} {n : ℕ} : epochFromRfc3339Bytes s = .ok (some n) ↔
    ∃ f : Fields, s.toList = f.text ∧ f.year.length = 4 ∧ (∀ g ∈ f.pairs, g.length = 2) ∧
      f.seconds = some n := by
  constructor
  · intro h
    rcases epochFromRfc3339Bytes_cases s with ⟨hnone, -⟩ | ⟨f, hs, hyear, hpairs, hok⟩
    · rw [hnone] at h
      cases h
    · rw [hok] at h
      have hseconds : f.seconds = some n := by simpa using h
      obtain ⟨y, m, d, h, mi, sec, days, hread, -⟩ := Fields.seconds_iff.mp hseconds
      obtain ⟨hw, hws⟩ := hread.widths
      exact ⟨f, hs, by omega, fun g hg => by rw [← hws g hg, hpairs g hg], hseconds⟩
  · rintro ⟨f, hs, hyear, hpairs, hseconds⟩
    obtain ⟨y, m, d, h, mi, sec, days, hread, -⟩ := Fields.seconds_iff.mp hseconds
    obtain ⟨hw, hws⟩ := hread.widths
    rw [epochFromRfc3339Bytes_text hs (by omega) fun g hg => by rw [hws g hg, hpairs g hg], hseconds]

/-- The reading by bytes is the reading by characters, and never panics. -/
theorem epochFromRfc3339Bytes_eq (s : String) :
    epochFromRfc3339Bytes s = .ok (epochFromRfc3339 s) := by
  have hchars : ∀ n, epochFromRfc3339 s = some n ↔ epochFromRfc3339Bytes s = .ok (some n) := by
    intro n
    rw [accepted_iff]
    constructor
    · intro h
      unfold epochFromRfc3339 at h
      split at h
      · rename_i y₁ y₂ y₃ y₄ m₁ m₂ d₁ d₂ h₁ h₂ n₁ n₂ s₁ s₂ hs
        exact ⟨⟨[y₁, y₂, y₃, y₄], [m₁, m₂], [d₁, d₂], [h₁, h₂], [n₁, n₂], [s₁, s₂]⟩, hs, rfl,
          by simp [Fields.pairs], h⟩
      · cases h
    · rintro ⟨⟨y, m, d, h, mi, sec⟩, hs, hyear, hpairs, hseconds⟩
      simp only [Fields.pairs, List.forall_mem_cons, List.length_eq_two] at hpairs
      obtain ⟨⟨m₁, m₂, rfl⟩, ⟨d₁, d₂, rfl⟩, ⟨h₁, h₂, rfl⟩, ⟨n₁, n₂, rfl⟩, ⟨s₁, s₂, rfl⟩, -⟩ := hpairs
      obtain ⟨y₁, ys, rfl⟩ := List.exists_cons_of_length_eq_add_one hyear
      obtain ⟨y₂, y₃, y₄, rfl⟩ := List.length_eq_three.mp (Nat.succ.inj hyear)
      unfold epochFromRfc3339
      rw [hs]
      exact hseconds
  rcases epochFromRfc3339Bytes_cases s with ⟨hnone, -⟩ | ⟨f, -, -, -, hok⟩
  · rw [hnone]
    cases hepoch : epochFromRfc3339 s with
    | none => rfl
    | some n =>
      have hread := (hchars n).mp hepoch
      rw [hnone] at hread
      cases hread
  · rw [hok]
    congr 1
    ext n
    have hn := hchars n
    rw [hok] at hn
    rw [hn, Except.ok.injEq]

/-- A field is digits, or a sign and one digit less. -/
theorem parseSigned_width {cs : List Char} {n : ℤ} {k : ℕ} (h : parseSigned cs = some n)
    (hlength : cs.length = k + 1) : (Digits (k + 1) cs ∧ n = digitsValue cs) ∨
    (('+' ∈ cs ∨ '-' ∈ cs) ∧ -10 ^ k < n ∧ n < 10 ^ k) := by
  obtain ⟨digits, -, hall, hcases⟩ := parseSigned_iff.mp h
  have hvalue : (digitsValue digits : ℤ) < 10 ^ digits.length := by
    exact_mod_cast digitsValue_lt hall
  rcases hcases with ⟨rfl, hn⟩ | ⟨rfl, hn⟩ | ⟨rfl, hn⟩
  · exact .inl ⟨⟨hlength, hall⟩, hn⟩
  · obtain rfl : digits.length = k := Nat.succ.inj hlength
    exact .inr ⟨.inl List.mem_cons_self, by omega, by omega⟩
  · obtain rfl : digits.length = k := Nat.succ.inj hlength
    exact .inr ⟨.inr List.mem_cons_self, by omega, by omega⟩

/-- Digits hold no sign. -/
theorem Digits.unsigned {n : ℕ} {cs : List Char} (h : Digits n cs) : ¬('+' ∈ cs ∨ '-' ∈ cs) := by
  rintro (hplus | hminus)
  · cases h.2 _ hplus
  · cases h.2 _ hminus

/-- Digits are read as the number they spell. -/
theorem parseSigned_digits {k : ℕ} {cs : List Char} (h : Digits (k + 1) cs) :
    parseSigned cs = some (digitsValue cs : ℤ) := by
  refine parseSigned_iff.mpr ⟨cs, ?_, h.2, .inl ⟨rfl, rfl⟩⟩
  rintro rfl
  cases h.1

/-- The day numbers around the epoch: those from 1970 on are not negative, the first day alone
is zero, and the last day before it alone is minus one. -/
theorem daysFromCivil_epoch {y m d z : ℤ} (h : daysFromCivil y m d = some z) :
    (1970 ≤ y → 0 ≤ z ∧ (z = 0 ↔ y = 1970 ∧ m = 1 ∧ d = 1)) ∧
      (y ≤ 1969 → z ≤ -1 ∧ (z = -1 → y = 1969 ∧ m = 12 ∧ d = 31)) := by
  obtain ⟨⟨hm₁, hm₂⟩, hd⟩ := daysFromCivil_range h
  obtain ⟨shifted, mp, yoe, doy, doe, hshifted, hmp, hyoe, hdoy, hdoe, -, hyoeRange, -, hdays⟩ :=
    daysFromCivil_terms (y := y) ⟨hm₁, hm₂⟩ hd
  rw [h, Option.some_inj] at hdays
  -- Away from the two years beside the epoch the years alone decide.
  rcases lt_or_ge y 1969 with hearly | hlater
  · interval_cases m <;> simp at hshifted hmp ⊢ <;> omega
  · rcases lt_or_ge 1970 y with hlate | hbeside
    · interval_cases m <;> simp at hshifted hmp ⊢ <;> omega
    · interval_cases y <;> interval_cases m <;> simp at hshifted hmp ⊢ <;> omega

/-- An accepted text is in the fixed form, or it is a signed one. -/
theorem stamp_or_signed {s : String} {n : ℕ} (h : epochFromRfc3339Bytes s = .ok (some n)) :
    ∃ f, Stamp s f ∨ SignedStamp s f := by
  obtain ⟨f, hs, hyear, hpairs, hseconds⟩ := accepted_iff.mp h
  obtain ⟨y, m, d, h, mi, sec, days, hread, htime⟩ := Fields.seconds_iff.mp hseconds
  obtain ⟨hh, hmi, hsec, htotal⟩ := timeOf_iff.mp htime
  obtain ⟨hm, hd⟩ := daysFromCivil_range hread.days
  obtain ⟨hlate, hearly⟩ := daysFromCivil_epoch hread.days
  have hwidths := hpairs
  simp only [Fields.pairs, List.forall_mem_cons] at hwidths
  obtain ⟨wm, wd, wh, wmi, wsec, -⟩ := hwidths
  have cy := parseSigned_width (k := 3) hread.year hyear
  have cm := parseSigned_width (k := 1) hread.month wm
  have cd := parseSigned_width (k := 1) hread.day wd
  have ch := parseSigned_width (k := 1) hread.hour wh
  have cmi := parseSigned_width (k := 1) hread.minute wmi
  have csec := parseSigned_width (k := 1) hread.second wsec
  -- Before 1970 only the leap second at the end of 1969 is not before the epoch.
  have hborder : 1970 ≤ y ∨ y = 1969 ∧ m = 12 ∧ d = 31 ∧ h = 23 ∧ mi = 59 ∧ sec = 60 := by
    rcases lt_or_ge y 1970 with hbefore | hafter
    · obtain ⟨hdays, hlast⟩ := hearly (by omega)
      obtain ⟨hy, hm, hd⟩ := hlast (by omega)
      exact .inr ⟨hy, hm, hd, by omega, by omega, by omega⟩
    · exact .inl hafter
  obtain ⟨hyearDigits, hyearValue⟩ : Digits 4 f.year ∧ y = digitsValue f.year := by
    rcases cy with hdigits | ⟨-, -, hsmall⟩
    · exact hdigits
    · omega
  refine ⟨f, ?_⟩
  by_cases hsigned : ∃ cs ∈ f.pairs, '+' ∈ cs ∨ '-' ∈ cs
  · refine .inr ⟨hs, hyearDigits, hpairs, hsigned, m, d, h, mi, sec, hread.month, hread.day,
      hread.hour, hread.minute, hread.second, hm, hd, hh, hmi, hsec, ?_⟩
    rcases hborder with hafter | ⟨-, rfl, rfl, rfl, rfl, rfl⟩
    · have hdays := hlate hafter
      omega
    · simp only [Fields.pairs, List.exists_mem_cons_iff, List.not_mem_nil, false_and, exists_false,
        or_false] at hsigned
      rcases hsigned with hsign | hsign | hsign | hsign | hsign
      · exact absurd hsign (cm.resolve_right (by omega)).1.unsigned
      · exact absurd hsign (cd.resolve_right (by omega)).1.unsigned
      · exact absurd hsign (ch.resolve_right (by omega)).1.unsigned
      · exact absurd hsign (cmi.resolve_right (by omega)).1.unsigned
      · exact absurd hsign (csec.resolve_right (by omega)).1.unsigned
  · simp only [Fields.pairs, List.exists_mem_cons_iff, List.not_mem_nil, false_and, exists_false,
      or_false, not_or] at hsigned
    obtain ⟨nm, nd, nh, nmi, nsec⟩ := hsigned
    obtain ⟨dm, vm⟩ := cm.resolve_right fun h => h.1.elim nm.1 nm.2
    obtain ⟨dd, vd⟩ := cd.resolve_right fun h => h.1.elim nd.1 nd.2
    obtain ⟨dh, vh⟩ := ch.resolve_right fun h => h.1.elim nh.1 nh.2
    obtain ⟨dmi, vmi⟩ := cmi.resolve_right fun h => h.1.elim nmi.1 nmi.2
    obtain ⟨dsec, vsec⟩ := csec.resolve_right fun h => h.1.elim nsec.1 nsec.2
    refine .inl ⟨hs, hyearDigits, ?_, by omega, by omega, by omega, by omega, by omega⟩
    simp only [Fields.pairs, List.forall_mem_cons]
    exact ⟨dm, dd, dh, dmi, dsec, by simp⟩

/-- A signed text is accepted. -/
theorem SignedStamp.accepted {s : String} {f : Fields} (h : SignedStamp s f) :
    ∃ n, epochFromRfc3339Bytes s = .ok (some n) := by
  obtain ⟨m, d, hr, mi, sec, hm, hd, hh, hmi, hsec, rm, rd, rh, rmi, rsec, hafter⟩ := h.read
  have hwidths := h.widths
  simp only [Fields.pairs, List.forall_mem_cons] at hwidths
  obtain ⟨-, -, wh, wmi, wsec, -⟩ := hwidths
  have ch := parseSigned_width (k := 1) hh wh
  have cmi := parseSigned_width (k := 1) hmi wmi
  have csec := parseSigned_width (k := 1) hsec wsec
  have hyear := parseSigned_digits h.year
  obtain ⟨days, hdays⟩ := daysFromCivil_some (y := digitsValue f.year) rm rd
  have hepoch := (daysFromCivil_epoch hdays).1 (by omega)
  obtain ⟨n, hn⟩ := Int.eq_ofNat_of_zero_le
    (a := days * 86400 + hr * 3600 + mi * 60 + sec) (by omega)
  refine ⟨n, accepted_iff.mpr ⟨f, h.text, h.year.1, h.widths, Fields.seconds_iff.mpr
    ⟨_, m, d, hr, mi, sec, days, ⟨hyear, hm, hd, hh, hmi, hsec, hdays⟩, ?_⟩⟩⟩
  exact timeOf_iff.mpr ⟨rh, rmi, rsec, hn⟩

/-- A text has one set of fields of the widths of the form. -/
theorem Fields.pairs_unique {f g : Fields} (h : f.text = g.text)
    (hyear : f.year.length = g.year.length) (hf : ∀ cs ∈ f.pairs, cs.length = 2)
    (hg : ∀ cs ∈ g.pairs, cs.length = 2) : f.pairs = g.pairs := by
  simp only [Fields.pairs, List.forall_mem_cons] at hf hg
  obtain ⟨fm, fd, fh, fn, fs, -⟩ := hf
  obtain ⟨gm, gd, gh, gn, gs, -⟩ := hg
  obtain ⟨-, h⟩ := List.append_inj h hyear
  obtain ⟨hmonth, h⟩ := List.append_inj (List.cons_inj_right _ |>.mp h) (by rw [fm, gm])
  obtain ⟨hday, h⟩ := List.append_inj (List.cons_inj_right _ |>.mp h) (by rw [fd, gd])
  obtain ⟨hhour, h⟩ := List.append_inj (List.cons_inj_right _ |>.mp h) (by rw [fh, gh])
  obtain ⟨hminute, h⟩ := List.append_inj (List.cons_inj_right _ |>.mp h) (by rw [fn, gn])
  obtain ⟨hsecond, -⟩ := List.append_inj (List.cons_inj_right _ |>.mp h) (by rw [fs, gs])
  unfold Fields.pairs
  rw [hmonth, hday, hhour, hminute, hsecond]

/-- A text is not both in the fixed form and a signed one. -/
theorem SignedStamp.not_stamp {s : String} {f g : Fields} (h : SignedStamp s f) : ¬Stamp s g := by
  intro hstamp
  have hpairs := Fields.pairs_unique (h.text.symm.trans hstamp.text) (by rw [h.year.1, hstamp.year.1])
    h.widths fun cs hcs => (hstamp.pairs cs hcs).1
  obtain ⟨cs, hcs, hsign⟩ := h.signed
  rw [hpairs] at hcs
  exact (hstamp.pairs cs hcs).unsigned hsign

/-- A number is written in the digits of its width, which spell it. -/
theorem padded_digits {w n : ℕ} (hw : 0 < w) (h : n < 10 ^ w) :
    Digits w (padded w n).toList ∧ digitsValue (padded w n).toList = n := by
  have hlength := (Nat.length_toDigits_le_iff (b := 10) (by decide) hw).mpr h
  unfold padded
  rw [String.toList_ofList, List.leftpad]
  refine ⟨⟨?_, ?_⟩, ?_⟩
  · rw [List.length_append, List.length_replicate]
    omega
  · intro c hc
    rcases List.mem_append.mp hc with hzero | hdigit
    · rw [(List.mem_replicate.mp hzero).2]
      rfl
    · exact Nat.isDigit_of_mem_toDigits (by decide) (by decide) hdigit
  · show Nat.ofDigitChars 10 _ 0 = n
    rw [Nat.ofDigitChars_append, Nat.ofDigitChars_replicate_zero, Nat.mul_zero,
      Nat.ofDigitChars_ten_toDigits]

/-- A number is written in as many octets as digits. -/
theorem padded_size {w n : ℕ} (h : n < 10 ^ (w + 1)) : size (padded (w + 1) n).toList = w + 1 := by
  obtain ⟨hdigits, -⟩ := padded_digits (w := w + 1) (Nat.succ_pos w) h
  rw [size_of_parseSigned (parseSigned_digits hdigits), hdigits.1]

/-- The dates that thirty-two bits of seconds reach. -/
theorem civilFromDays64_epoch {t : ℕ} (ht : t < 2 ^ 32) : ∃ y m d : ℕ,
    civilFromDays64 (t / 86400 : ℕ) = .ok ((y : ℤ), (m : ℤ), (d : ℤ)) ∧
      daysFromCivil y m d = some ((t / 86400 : ℕ) : ℤ) ∧ (1970 ≤ y ∧ y < 2107) ∧ m < 100 ∧ d < 100 := by
  have hwithin : Within64 (t / 86400 : ℕ) := by
    unfold Within64
    omega
  have hheld : Held (t / 86400 : ℕ) := by
    unfold Held
    omega
  rw [civilFromDays64_eq hwithin, if_pos hheld]
  rcases hdate : civilOfDays (t / 86400 : ℕ) with ⟨y, m, d⟩
  obtain ⟨-, hdays⟩ := daysFromCivil_civilOfDays hdate
  obtain ⟨hm, hd⟩ := daysFromCivil_range hdays
  obtain ⟨-, hearly⟩ := daysFromCivil_epoch hdays
  have hfirst : 1970 ≤ y := by
    by_contra hbefore
    have hnegative := (hearly (by omega)).1
    omega
  have hlast : y < 2107 := by
    obtain ⟨shifted, mp, yoe, doy, doe, hshifted, -, hyoe, hdoy, hdoe, hmp, hyoeRange, -, hterms⟩ :=
      daysFromCivil_terms (y := y) hm hd
    rw [hdays, Option.some_inj] at hterms
    have hyears : y - 1 ≤ shifted := by
      rw [hshifted]
      split <;> omega
    by_contra hafter
    omega
  refine ⟨y.toNat, m.toNat, d.toNat, ?_⟩
  rw [Int.toNat_of_nonneg (by omega), Int.toNat_of_nonneg (by omega), Int.toNat_of_nonneg (by omega)]
  exact ⟨rfl, hdays, by omega, by omega, by omega⟩

/-- A number that is not negative is written without a sign. -/
theorem zeroPadded_natCast (width n : ℕ) : zeroPadded width (n : ℤ) = padded width n := by
  unfold zeroPadded
  rw [if_neg (by omega), Int.natAbs_natCast]

/-- A written time is read back. -/
theorem epochFromRfc3339Bytes_rfc3339 (t : UInt32) : ∃ s, rfc3339 t = .ok s ∧
    epochFromRfc3339Bytes s = .ok (some t.toNat) := by
  obtain ⟨y, m, d, hdate, hdays, hyear, hm, hd⟩ := civilFromDays64_epoch t.toNat_lt
  obtain ⟨sec, hsec⟩ : ∃ sec, sec = t.toNat % 86400 := ⟨_, rfl⟩
  obtain ⟨dy, vy⟩ := padded_digits (w := 4) (n := y) (by decide) (by omega)
  obtain ⟨dm, vm⟩ := padded_digits (w := 2) (n := m) (by decide) hm
  obtain ⟨dd, vd⟩ := padded_digits (w := 2) (n := d) (by decide) hd
  obtain ⟨dh, vh⟩ := padded_digits (w := 2) (n := sec / 3600) (by decide) (by omega)
  obtain ⟨dmi, vmi⟩ := padded_digits (w := 2) (n := sec / 60 % 60) (by decide) (by omega)
  obtain ⟨ds, vs⟩ := padded_digits (w := 2) (n := sec % 60) (by decide) (by omega)
  refine ⟨padded 4 y ++ "-" ++ padded 2 m ++ "-" ++ padded 2 d ++ "T" ++ padded 2 (sec / 3600) ++
    ":" ++ padded 2 (sec / 60 % 60) ++ ":" ++ padded 2 (sec % 60) ++ "Z", ?_, ?_⟩
  · unfold rfc3339
    dsimp only
    rw [hdate, ← hsec]
    show Except.ok _ = _
    simp only [zeroPadded_natCast]
  · refine accepted_iff.mpr ⟨⟨(padded 4 y).toList, (padded 2 m).toList, (padded 2 d).toList,
      (padded 2 (sec / 3600)).toList, (padded 2 (sec / 60 % 60)).toList,
      (padded 2 (sec % 60)).toList⟩, ?_, dy.1, ?_, Fields.seconds_iff.mpr
      ⟨y, m, d, (sec / 3600 : ℕ), (sec / 60 % 60 : ℕ), (sec % 60 : ℕ), (t.toNat / 86400 : ℕ),
        ⟨?_, ?_, ?_, ?_, ?_, ?_, hdays⟩, ?_⟩⟩
    · simp [Fields.text]
    · simp only [Fields.pairs, List.forall_mem_cons]
      exact ⟨dm.1, dd.1, dh.1, dmi.1, ds.1, by simp⟩
    · rw [parseSigned_digits dy, vy]
    · rw [parseSigned_digits dm, vm]
    · rw [parseSigned_digits dd, vd]
    · rw [parseSigned_digits dh, vh]
    · rw [parseSigned_digits dmi, vmi]
    · rw [parseSigned_digits ds, vs]
    · rw [timeOf_iff]
      omega

/-- A text is read without a panic and accepted only in the fixed form exactly when it is not
a signed one. -/
theorem accepts_stamps_iff (s : String) :
    (∃ r, epochFromRfc3339Bytes s = .ok r ∧ (r ≠ none → ∃ f, Stamp s f)) ↔ ¬∃ f, SignedStamp s f := by
  constructor
  · rintro ⟨r, hr, hstamp⟩ ⟨f, hsigned⟩
    obtain ⟨n, hn⟩ := hsigned.accepted
    rw [hr, Except.ok.injEq] at hn
    obtain ⟨g, hg⟩ := hstamp (by rw [hn]; exact Option.some_ne_none n)
    exact hsigned.not_stamp hg
  · intro hunsigned
    refine ⟨_, epochFromRfc3339Bytes_eq s, fun hsome => ?_⟩
    obtain ⟨n, hn⟩ := Option.ne_none_iff_exists'.mp hsome
    have hread := epochFromRfc3339Bytes_eq s
    rw [hn] at hread
    obtain ⟨f, hf | hf⟩ := stamp_or_signed hread
    · exact ⟨f, hf⟩
    · exact absurd ⟨f, hf⟩ hunsigned

/-- Every instant is read back from its timestamp. A day number and a real date come back from
each other as far as their type reaches. A text is read without a panic, and accepted only in
the fixed form, exactly when it is not a signed one. -/
theorem timestamps_hold_iff (t : UInt32) (z : Int64) {y m d : Int64}
    (hdate : RealDate y.toInt m.toInt d.toInt) (s : String) :
    (∃ written, rfc3339 t = .ok written ∧
      epochFromRfc3339Bytes written = .ok (some t.toNat)) ∧
    ((∃ y m d, civilFromDays64 z.toInt = .ok (y, m, d) ∧ RealDate y m d ∧
      daysFromCivil64 y m d = .ok (some z.toInt)) ↔ Held z.toInt) ∧
    ((∃ z, daysFromCivil64 y.toInt m.toInt d.toInt = .ok (some z) ∧
      civilFromDays64 z = .ok (y.toInt, m.toInt, d.toInt)) ↔
      NotBefore y.toInt m.toInt d.toInt ∧ NotAfter y.toInt m.toInt d.toInt) ∧
    ((∃ r, epochFromRfc3339Bytes s = .ok r ∧ (r ≠ none → ∃ f, Stamp s f)) ↔
      ¬∃ f, SignedStamp s f) :=
  ⟨epochFromRfc3339Bytes_rfc3339 t, civilFromDays64_inverse z, daysFromCivil64_inverse y m d hdate,
    accepts_stamps_iff s⟩

/-- A leap day comes back from its day number. -/
theorem timestamps_hold_leapDay : ∃ z, daysFromCivil64 2024 2 29 = .ok (some z) ∧
    civilFromDays64 z = .ok (2024, 2, 29) :=
  (timestamps_hold_iff 0 0 (y := 2024) (m := 2) (d := 29) (by decide) "").2.2.1.mpr
    ⟨by decide, by decide⟩

/-- A month of a sign and a digit is accepted, and is not of the fixed form. -/
theorem accepts_signed : ¬∀ (s : String) (n : ℕ), epochFromRfc3339Bytes s = .ok (some n) →
    ∃ f, Stamp s f := by
  intro h
  have hsigned : SignedStamp "2026-+7-21T12:00:00Z" ⟨['2', '0', '2', '6'], ['+', '7'], ['2', '1'],
      ['1', '2'], ['0', '0'], ['0', '0']⟩ :=
    { text := by decide
      year := by decide
      widths := by decide
      signed := by decide
      read := ⟨7, 21, 12, 0, 0, by decide⟩ }
  have haccepted : epochFromRfc3339Bytes "2026-+7-21T12:00:00Z" = .ok (some 1784635200) := by
    decide
  obtain ⟨f, hf⟩ := h _ _ haccepted
  exact hsigned.not_stamp hf

end Kerbridge.Timestamps

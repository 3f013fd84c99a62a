import Mathlib.Data.Nat.Notation
import Mathlib.Data.List.Basic
import Mathlib.Data.Nat.ModEq

/-!
# Reading distinguished encodings

An element is a tag, a length and a content of that length. The distinguished rules
leave one spelling for each value: a length and an integer have no octet more than
they need, and no length is left open. A reader that holds to them refuses every
other spelling, so what it reads has only these.
-/

namespace Kerbridge.Der

/-- The number that octets spell, the most significant one first. -/
def value : List UInt8 → ℕ
  | [] => 0
  | b :: rest => b.toNat * 256 ^ rest.length + value rest

/-- A number in so many octets, the most significant one first. -/
def octets : ℕ → ℕ → List UInt8
  | 0, _ => []
  | w + 1, n => UInt8.ofNat (n / 256 ^ w) :: octets w n

/-- A number takes the octets it is given. -/
@[simp] theorem length_octets (w n : ℕ) : (octets w n).length = w := by
  induction w with
  | zero => rfl
  | succ w ih => rw [octets, List.length_cons, ih]

/-- Octets spell the number they were made of, as far as they reach. -/
theorem value_octets (w n : ℕ) : value (octets w n) = n % 256 ^ w := by
  induction w with
  | zero =>
    rw [octets, value, Nat.pow_zero, Nat.mod_one]
  | succ w ih =>
    have hbyte : (UInt8.ofNat (n / 256 ^ w)).toNat = n / 256 ^ w % 256 := UInt8.toNat_ofNat'
    rw [octets, value, ih, length_octets, hbyte, Nat.mod_pow_succ, Nat.mul_comm, Nat.add_comm]

/-- Octets spell less than their number allows. -/
theorem value_lt (l : List UInt8) : value l < 256 ^ l.length := by
  induction l with
  | nil => decide
  | cons b rest ih =>
    have hb := b.toNat_lt
    rw [value, List.length_cons, Nat.pow_succ]
    have hstep : b.toNat * 256 ^ rest.length ≤ 255 * 256 ^ rest.length :=
      Nat.mul_le_mul_right _ (by omega)
    omega

/-- Leading zeros spell nothing. -/
theorem value_dropZeros (l : List UInt8) : value (l.dropWhile (· == 0)) = value l := by
  induction l with
  | nil => rfl
  | cons b rest ih =>
    by_cases hb : b = 0
    · subst hb
      rw [List.dropWhile_cons_of_pos (by decide), ih, value]
      simp
    · rw [List.dropWhile_cons_of_neg (by simpa using hb)]

/-- A length and what follows it. -/
def readLength : List UInt8 → Option (ℕ × List UInt8)
  | [] => none
  | b :: rest =>
    if b.toNat < 128 then some (b.toNat, rest)
    else
      let digits := rest.take (b.toNat - 128)
      -- Neither an open length, nor the reserved one, nor one with an octet too many.
      if b.toNat = 128 || b.toNat = 255 || decide (rest.length < b.toNat - 128) ||
          digits.head? == some 0 || decide (value digits < 128) then none
      else some (value digits, rest.drop (b.toNat - 128))

/-- An element: its tag, its content and what follows it. -/
def readElement : List UInt8 → Option (UInt8 × List UInt8 × List UInt8)
  | [] => none
  | tag :: rest =>
    -- A tag of several octets.
    if tag.toNat % 32 = 31 then none
    else
      (readLength rest).bind fun (n, rest) =>
        if rest.length < n then none else some (tag, rest.take n, rest.drop n)

/-- The content of an element that stands alone. -/
def whole (tag : UInt8) (bytes : List UInt8) : Option (List UInt8) :=
  (readElement bytes).bind fun (t, content, rest) =>
    if t = tag ∧ rest = [] then some content else none

/-- The number an integer's content spells, when it has no octet too many. -/
def readInteger : List UInt8 → Option ℤ
  | [] => none
  | b :: rest =>
    let spare := match rest with
      | [] => false
      | next :: _ => (b == 0 && decide (next.toNat < 128)) || (b == 255 && decide (128 ≤ next.toNat))
    if spare then none
    else if b.toNat < 128 then some (Int.ofNat (value (b :: rest)))
    else some (Int.ofNat (value (b :: rest)) - 256 ^ (rest.length + 1))

/-- A member of a sequence, which stands under a tag of its own. -/
def member {α : Type} (tag : UInt8) (inner : List UInt8 → Option α) (bytes : List UInt8) :
    Option (α × List UInt8) :=
  (readElement bytes).bind fun (t, content, rest) =>
    if t = tag then (inner content).map fun a => (a, rest) else none

/-- A member that may be left out. -/
def memberOpt {α : Type} (tag : UInt8) (inner : List UInt8 → Option α) (bytes : List UInt8) :
    Option (Option α × List UInt8) :=
  if bytes.head? = some tag then (member tag inner bytes).map fun (a, rest) => (some a, rest)
  else some (none, bytes)

/-- Elements one after another, each read by its own reader, within a number of rounds. -/
def several {α : Type} (inner : List UInt8 → Option α) : ℕ → List UInt8 → Option (List α)
  | _, [] => some []
  | 0, _ :: _ => none
  | rounds + 1, b :: bytes =>
    (readElement (b :: bytes)).bind fun (_, _, rest) =>
      (inner ((b :: bytes).take ((b :: bytes).length - rest.length))).bind fun a =>
        (several inner rounds rest).map (a :: ·)

/-- What is left of a sequence must be nothing. -/
def ended {α : Type} : α × List UInt8 → Option α
  | (a, []) => some a
  | (_, _ :: _) => none

/-- A length below 128 is its own octet. -/
theorem readLength_short {n : ℕ} (h : n < 128) (rest : List UInt8) :
    readLength (UInt8.ofNat n :: rest) = some (n, rest) := by
  have hn : (UInt8.ofNat n).toNat = n := by
    rw [UInt8.toNat_ofNat']
    omega
  rw [readLength, hn, if_pos h]

/-- Any other length is behind the number of its octets. -/
theorem readLength_long {digits : List UInt8} (hcount : digits.length ≤ 126)
    (hhead : digits.head? ≠ some 0) (hvalue : 128 ≤ value digits) (rest : List UInt8) :
    readLength (UInt8.ofNat (128 + digits.length) :: (digits ++ rest)) =
      some (value digits, rest) := by
  have hpos : 0 < digits.length := by
    cases digits with
    | nil =>
      rw [value] at hvalue
      omega
    | cons b digits => simp
  have hn : (UInt8.ofNat (128 + digits.length)).toNat = 128 + digits.length := by
    rw [UInt8.toNat_ofNat']
    omega
  have htake : (digits ++ rest).take (128 + digits.length - 128) = digits := by
    rw [Nat.add_sub_cancel_left, List.take_left]
  have hdrop : (digits ++ rest).drop (128 + digits.length - 128) = rest := by
    rw [Nat.add_sub_cancel_left, List.drop_left]
  rw [readLength, hn, if_neg (by omega)]
  simp only [htake, hdrop]
  rw [if_neg]
  simp only [Bool.or_eq_true, decide_eq_true_eq, beq_iff_eq, not_or]
  refine ⟨⟨⟨⟨by omega, by omega⟩, ?_⟩, hhead⟩, by omega⟩
  rw [List.length_append]
  omega

/-- An element is read when its length is the length of its content. -/
theorem readElement_of_length {tag : UInt8} (htag : tag.toNat % 32 ≠ 31)
    {header content rest : List UInt8}
    (h : readLength (header ++ (content ++ rest)) = some (content.length, content ++ rest)) :
    readElement (tag :: (header ++ (content ++ rest))) = some (tag, content, rest) := by
  rw [readElement, if_neg htag, h, Option.bind_some]
  dsimp only
  rw [if_neg (by simp), List.take_left, List.drop_left]

/-- A number is read from its octets when the first is neither spare nor a sign. -/
theorem readInteger_of_value {content : List UInt8}
    (hsmall : ∃ b rest, content = b :: rest ∧ b.toNat < 128 ∧
      (b = 0 → ∀ next ∈ rest.head?, 128 ≤ next.toNat)) :
    readInteger content = some (Int.ofNat (value content)) := by
  obtain ⟨b, rest, rfl, hb, hnext⟩ := hsmall
  have hsign : (b == 255) = false := by
    rw [beq_eq_false_iff_ne]
    rintro rfl
    exact absurd hb (by decide)
  cases rest with
  | nil => simp [readInteger, hb]
  | cons next rest =>
    have hspare : ((b == 0) && decide (next.toNat < 128)) = false := by
      rw [Bool.and_eq_false_iff]
      by_cases hzero : b = 0
      · have hbig := hnext hzero next rfl
        exact Or.inr (decide_eq_false (by omega))
      · exact Or.inl (beq_eq_false_iff_ne.mpr hzero)
    simp only [readInteger, hspare, hsign, Bool.false_and, Bool.or_self, Bool.false_eq_true, if_false, hb,
      if_true]

/-- Content that stands alone is read. -/
theorem whole_of_element {tag : UInt8} {bytes content : List UInt8}
    (h : readElement bytes = some (tag, content, [])) : whole tag bytes = some content := by
  rw [whole, h, Option.bind_some]
  simp

/-- A member is read by its own reader. -/
theorem member_of_element {α : Type} {tag : UInt8} {inner : List UInt8 → Option α}
    {bytes content rest : List UInt8} {a : α}
    (h : readElement bytes = some (tag, content, rest)) (ha : inner content = some a) :
    member tag inner bytes = some (a, rest) := by
  rw [member, h, Option.bind_some]
  simp [ha]

end Kerbridge.Der

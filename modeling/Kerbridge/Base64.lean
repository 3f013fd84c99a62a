import Mathlib.Data.List.Basic

/-!
# Base64, padded

The standard alphabet in groups of four characters, the last of them padded. Reading
is strict: the padding must be there, and the bits it leaves over must be zero.
-/

namespace Kerbridge.Base64

/-- The character of six bits. -/
def charOf (n : ℕ) : Char :=
  if n < 26 then Char.ofNat (65 + n)
  else if n < 52 then Char.ofNat (71 + n)
  else if n < 62 then Char.ofNat (n - 4)
  else if n = 62 then '+'
  else '/'

/-- The six bits of a character. -/
def valueOf (c : Char) : Option ℕ :=
  if 'A' ≤ c ∧ c ≤ 'Z' then some (c.toNat - 65)
  else if 'a' ≤ c ∧ c ≤ 'z' then some (c.toNat - 71)
  else if '0' ≤ c ∧ c ≤ '9' then some (c.toNat + 4)
  else if c = '+' then some 62
  else if c = '/' then some 63
  else none

/-- Bytes in groups of three, each as four characters. -/
def encode : List UInt8 → List Char
  | [] => []
  | [a] => [charOf (a.toNat / 4), charOf (a.toNat % 4 * 16), '=', '=']
  | [a, b] =>
    [charOf (a.toNat / 4), charOf (a.toNat % 4 * 16 + b.toNat / 16), charOf (b.toNat % 16 * 4), '=']
  | a :: b :: c :: rest =>
    charOf (a.toNat / 4) :: charOf (a.toNat % 4 * 16 + b.toNat / 16) ::
      charOf (b.toNat % 16 * 4 + c.toNat / 64) :: charOf (c.toNat % 64) :: encode rest

/-- A group of four characters without padding. -/
def group (a b c d : Char) : Option (List UInt8) := do
  let x ← valueOf a
  let y ← valueOf b
  let z ← valueOf c
  let w ← valueOf d
  return [UInt8.ofNat (4 * x + y / 16), UInt8.ofNat (y % 16 * 16 + z / 4),
    UInt8.ofNat (z % 4 * 64 + w)]

/-- The last group of four characters. -/
def lastGroup (a b c d : Char) : Option (List UInt8) :=
  if d ≠ '=' then group a b c d
  else if c ≠ '=' then do
    let x ← valueOf a
    let y ← valueOf b
    let z ← valueOf c
    if z % 4 = 0 then some [UInt8.ofNat (4 * x + y / 16), UInt8.ofNat (y % 16 * 16 + z / 4)]
    else none
  else do
    let x ← valueOf a
    let y ← valueOf b
    if y % 16 = 0 then some [UInt8.ofNat (4 * x + y / 16)] else none

/-- Characters read back as bytes. -/
def decode : List Char → Option (List UInt8)
  | [] => some []
  | [a, b, c, d] => lastGroup a b c d
  | a :: b :: c :: d :: rest => do
    let bytes ← group a b c d
    let more ← decode rest
    return bytes ++ more
  | _ => none

/-- Six bits are read back from their character. -/
theorem valueOf_charOf {n : ℕ} (h : n < 64) : valueOf (charOf n) = some n := by
  have hall : ∀ n < 64, valueOf (charOf n) = some n := by decide
  exact hall n h

/-- A character of six bits is printable, and no padding. -/
theorem charOf_plain {n : ℕ} (h : n < 64) : 43 ≤ (charOf n).toNat ∧ charOf n ≠ '=' := by
  have hall : ∀ n < 64, 43 ≤ (charOf n).toNat ∧ charOf n ≠ '=' := by decide
  exact hall n h

/-- A group without padding is read, and then the rest. -/
theorem decode_cons {a b c d : Char} (h : d ≠ '=') (rest : List Char) :
    decode (a :: b :: c :: d :: rest) =
      (group a b c d).bind fun bytes => (decode rest).map (bytes ++ ·) := by
  cases rest with
  | nil =>
    have hlast : decode [a, b, c, d] = group a b c d := by
      rw [decode]
      exact if_pos h
    rw [hlast]
    cases group a b c d with
    | none => rfl
    | some bytes => simp [decode]
  | cons e rest =>
    rw [decode]
    · cases group a b c d with
      | none => rfl
      | some bytes =>
        cases decode (e :: rest) with
        | none => rfl
        | some more => rfl
    · simp

/-- The bytes of a group are read back. -/
theorem group_charOf (a b c : UInt8) :
    group (charOf (a.toNat / 4)) (charOf (a.toNat % 4 * 16 + b.toNat / 16))
      (charOf (b.toNat % 16 * 4 + c.toNat / 64)) (charOf (c.toNat % 64)) = some [a, b, c] := by
  have ha : a.toNat < 256 := a.toNat_lt
  have hb : b.toNat < 256 := b.toNat_lt
  have hc : c.toNat < 256 := c.toNat_lt
  have h1 : 4 * (a.toNat / 4) + (a.toNat % 4 * 16 + b.toNat / 16) / 16 = a.toNat := by omega
  have h2 : (a.toNat % 4 * 16 + b.toNat / 16) % 16 * 16 +
      (b.toNat % 16 * 4 + c.toNat / 64) / 4 = b.toNat := by omega
  have h3 : (b.toNat % 16 * 4 + c.toNat / 64) % 4 * 64 + c.toNat % 64 = c.toNat := by omega
  unfold group
  rw [valueOf_charOf (by omega), valueOf_charOf (by omega), valueOf_charOf (by omega),
    valueOf_charOf (by omega)]
  simp only [Option.bind_eq_bind, Option.bind_some, h1, h2, h3, UInt8.ofNat_toNat]
  rfl

/-- Bytes are read back from what they are written as. -/
theorem decode_encode (bytes : List UInt8) : decode (encode bytes) = some bytes := by
  fun_induction encode bytes with
  | case1 => rfl
  | case2 a =>
    have ha : a.toNat < 256 := a.toNat_lt
    have hbits : a.toNat % 4 * 16 % 16 = 0 := by omega
    have hbyte : 4 * (a.toNat / 4) + a.toNat % 4 * 16 / 16 = a.toNat := by omega
    rw [decode, lastGroup, valueOf_charOf (by omega), valueOf_charOf (by omega)]
    simp only [ne_eq, not_true_eq_false, if_false, Option.bind_eq_bind, Option.bind_some, hbits,
      if_true, hbyte, UInt8.ofNat_toNat]
  | case3 a b =>
    have ha : a.toNat < 256 := a.toNat_lt
    have hb : b.toNat < 256 := b.toNat_lt
    have hpad := (charOf_plain (n := b.toNat % 16 * 4) (by omega)).2
    have hbits : b.toNat % 16 * 4 % 4 = 0 := by omega
    have h1 : 4 * (a.toNat / 4) + (a.toNat % 4 * 16 + b.toNat / 16) / 16 = a.toNat := by omega
    have h2 : (a.toNat % 4 * 16 + b.toNat / 16) % 16 * 16 + b.toNat % 16 * 4 / 4 = b.toNat := by
      omega
    rw [decode, lastGroup, valueOf_charOf (by omega), valueOf_charOf (by omega),
      valueOf_charOf (by omega)]
    simp only [ne_eq, not_true_eq_false, if_false, hpad, not_false_eq_true, if_true,
      Option.bind_eq_bind, Option.bind_some, hbits, h1, h2, UInt8.ofNat_toNat]
  | case4 a b c rest ih =>
    have hc : c.toNat < 256 := c.toNat_lt
    have hpad := (charOf_plain (n := c.toNat % 64) (by omega)).2
    rw [decode_cons hpad, group_charOf, ih]
    rfl

/-- What bytes are written as is printable. -/
theorem encode_plain (bytes : List UInt8) : ∀ c ∈ encode bytes, 43 ≤ c.toNat := by
  fun_induction encode bytes with
  | case1 => simp
  | case2 a =>
    have ha : a.toNat < 256 := a.toNat_lt
    have h1 := (charOf_plain (n := a.toNat / 4) (by omega)).1
    have h2 := (charOf_plain (n := a.toNat % 4 * 16) (by omega)).1
    simp [h1, h2]
  | case3 a b =>
    have ha : a.toNat < 256 := a.toNat_lt
    have hb : b.toNat < 256 := b.toNat_lt
    have h1 := (charOf_plain (n := a.toNat / 4) (by omega)).1
    have h2 := (charOf_plain (n := a.toNat % 4 * 16 + b.toNat / 16) (by omega)).1
    have h3 := (charOf_plain (n := b.toNat % 16 * 4) (by omega)).1
    simp [h1, h2, h3]
  | case4 a b c rest ih =>
    have ha : a.toNat < 256 := a.toNat_lt
    have hb : b.toNat < 256 := b.toNat_lt
    have hc : c.toNat < 256 := c.toNat_lt
    have h1 := (charOf_plain (n := a.toNat / 4) (by omega)).1
    have h2 := (charOf_plain (n := a.toNat % 4 * 16 + b.toNat / 16) (by omega)).1
    have h3 := (charOf_plain (n := b.toNat % 16 * 4 + c.toNat / 64) (by omega)).1
    have h4 := (charOf_plain (n := c.toNat % 64) (by omega)).1
    simp only [List.forall_mem_cons]
    exact ⟨h1, h2, h3, h4, ih⟩

end Kerbridge.Base64

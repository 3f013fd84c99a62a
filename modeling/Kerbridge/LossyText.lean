import Kerbridge.UnicodeText

/-!
# Text out of arbitrary bytes

Bytes are read as UTF-8, and every piece that is none becomes one replacement
character. A piece is as long as the start of a character it could have been.
-/

namespace Kerbridge.LossyText

open UnicodeText

/-- Whether a byte continues a character. -/
def isContinuation (b : UInt8) : Bool := decide (0x80 ≤ b) && decide (b ≤ 0xBF)

/-- Whether a byte may come second in a character of three bytes or four. -/
def isSecond (first b : UInt8) : Bool :=
  if first = 0xE0 then decide (0xA0 ≤ b) && decide (b ≤ 0xBF)
  else if first = 0xED then decide (0x80 ≤ b) && decide (b ≤ 0x9F)
  else if first = 0xF0 then decide (0x90 ≤ b) && decide (b ≤ 0xBF)
  else if first = 0xF4 then decide (0x80 ≤ b) && decide (b ≤ 0x8F)
  else decide (0xE0 ≤ first) && decide (first ≤ 0xF4) && isContinuation b

/-- How long the piece is that bytes begin with which begin with no character. -/
def malformed : List UInt8 → ℕ
  | first :: b :: rest =>
    if isSecond first b then
      match rest with
      | c :: _ => if 0xF0 ≤ first ∧ isContinuation c = true then 3 else 2
      | [] => 2
    else 1
  | _ => 1

/-- What stands for a piece that is no text. -/
def replacement : Char := '\uFFFD'

/-- The loop of `fromUtf8Lossy`; a round for each byte is enough. -/
def lossyLoop : ℕ → List UInt8 → List Char
  | 0, _ => []
  | _ + 1, [] => []
  | rounds + 1, bytes =>
    match bytes.toByteArray.utf8DecodeChar? 0 with
    | some c => c :: lossyLoop rounds (bytes.drop c.utf8Size)
    | none => replacement :: lossyLoop rounds (bytes.drop (malformed bytes))

/-- `String::from_utf8_lossy`. -/
def fromUtf8Lossy (bytes : List UInt8) : String := String.ofList (lossyLoop bytes.length bytes)

/-- A character is read off the front of its octets. -/
theorem lossyLoop_char (c : Char) (rounds : ℕ) (rest : List UInt8) :
    lossyLoop (rounds + 1) (String.utf8EncodeChar c ++ rest) = c :: lossyLoop rounds rest := by
  have hread : (String.utf8EncodeChar c ++ rest).toByteArray.utf8DecodeChar? 0 = some c := by
    rw [List.toByteArray_append]
    exact ByteArray.utf8DecodeChar?_utf8EncodeChar_append
  have hdrop : (String.utf8EncodeChar c ++ rest).drop c.utf8Size = rest := by
    rw [← String.length_utf8EncodeChar, List.drop_left]
  cases hbytes : String.utf8EncodeChar c ++ rest with
  | nil =>
    have hlen := congrArg List.length hbytes
    rw [List.length_append, String.length_utf8EncodeChar, List.length_nil] at hlen
    have hpos := c.utf8Size_pos
    omega
  | cons b bytes =>
    rw [hbytes] at hread hdrop
    rw [lossyLoop, hread]
    dsimp only
    rw [hdrop]
    simp

/-- Text is read back from its octets. -/
theorem fromUtf8Lossy_bytesOf (s : String) : fromUtf8Lossy (bytesOf s) = s := by
  have hloop : ∀ (cs : List Char) (rounds : ℕ),
      (cs.flatMap String.utf8EncodeChar).length ≤ rounds →
        lossyLoop rounds (cs.flatMap String.utf8EncodeChar) = cs := by
    intro cs
    induction cs with
    | nil =>
      intro rounds _
      cases rounds with
      | zero => rfl
      | succ rounds => rfl
    | cons c cs ih =>
      intro rounds hrounds
      rw [List.flatMap_cons, List.length_append, String.length_utf8EncodeChar] at hrounds
      have hpos := c.utf8Size_pos
      cases rounds with
      | zero => omega
      | succ rounds => rw [List.flatMap_cons, lossyLoop_char, ih rounds (by omega)]
  unfold fromUtf8Lossy bytesOf
  rw [hloop s.toList _ (Nat.le_refl _), String.ofList_toList]

/-- The octet of an ASCII character. -/
theorem utf8EncodeChar_ofNat {b : UInt8} (h : b < 128) :
    String.utf8EncodeChar (Char.ofNat b.toNat) = [b] := by
  have hall : ∀ n < 128, String.utf8EncodeChar (Char.ofNat n) = [UInt8.ofNat n] := by decide
  rw [hall b.toNat (UInt8.lt_iff_toNat_lt.mp h), UInt8.ofNat_toNat]

/-- An ASCII octet in a character is all of it. -/
theorem char_of_octet {c : Char} {b : UInt8} {i : ℕ} (hi : (String.utf8EncodeChar c)[i]? = some b)
    (h : b < 128) : i = 0 ∧ c = Char.ofNat b.toNat := by
  obtain ⟨hlength, hget⟩ := List.getElem?_eq_some_iff.mp hi
  have hall : ∀ n < 128, (UInt8.ofNat n).IsUTF8FirstByte := by decide
  have hfirst : i = 0 := by
    have hb := hall b.toNat (UInt8.lt_iff_toNat_lt.mp h)
    rw [UInt8.ofNat_toNat, ← hget] at hb
    exact UInt8.isUTF8FirstByte_getElem_utf8EncodeChar.mp hb
  subst hfirst
  refine ⟨rfl, ?_⟩
  cases hbytes : String.utf8EncodeChar c with
  | nil =>
    rw [hbytes] at hi
    cases hi
  | cons first rest =>
    rw [hbytes, List.getElem?_cons_zero, Option.some_inj] at hi
    have hread : (String.utf8EncodeChar c ++ []).toByteArray.utf8DecodeChar? 0 = some c := by
      rw [List.toByteArray_append]
      exact ByteArray.utf8DecodeChar?_utf8EncodeChar_append
    have hplain : (String.utf8EncodeChar (Char.ofNat b.toNat) ++ rest).toByteArray.utf8DecodeChar? 0 =
        some (Char.ofNat b.toNat) := by
      rw [List.toByteArray_append]
      exact ByteArray.utf8DecodeChar?_utf8EncodeChar_append
    rw [List.append_nil, hbytes, hi] at hread
    rw [utf8EncodeChar_ofNat h, List.singleton_append] at hplain
    exact Option.some_inj.mp (hread.symm.trans hplain)

/-- Where the octets of a text hold an ASCII one, the text holds its character, and the octets
around it are those of the text around it. -/
theorem split_at_octet {cs : List Char} {k : ℕ} {b : UInt8}
    (hk : (cs.flatMap String.utf8EncodeChar)[k]? = some b) (h : b < 128) :
    ∃ before after, cs = before ++ Char.ofNat b.toNat :: after ∧
      (before.flatMap String.utf8EncodeChar).length = k ∧
      (cs.flatMap String.utf8EncodeChar).drop (k + 1) = after.flatMap String.utf8EncodeChar := by
  induction cs generalizing k with
  | nil =>
    rw [List.flatMap_nil] at hk
    cases hk
  | cons c cs ih =>
    rw [List.flatMap_cons] at hk
    by_cases hinside : k < (String.utf8EncodeChar c).length
    · rw [List.getElem?_append_left hinside] at hk
      obtain ⟨rfl, rfl⟩ := char_of_octet hk h
      refine ⟨[], cs, rfl, rfl, ?_⟩
      rw [List.flatMap_cons, utf8EncodeChar_ofNat h]
      rfl
    · rw [List.getElem?_append_right (by omega)] at hk
      obtain ⟨before, after, rfl, hlength, hrest⟩ := ih hk
      refine ⟨c :: before, after, rfl, ?_, ?_⟩
      · rw [List.flatMap_cons, List.length_append, hlength]
        omega
      · rw [← hrest, List.flatMap_cons, List.drop_append, List.drop_of_length_le (by omega),
          List.nil_append]
        congr 1
        omega

/-- `String::from_utf16_lossy`, character by character: a unit of a pair without its other half
becomes one replacement character. -/
def fromUtf16 : List ℕ → List Char
  | [] => []
  | [u] => if 0xD800 ≤ u ∧ u ≤ 0xDFFF then [replacement] else [Char.ofNat u]
  | u :: v :: rest =>
    if 0xD800 ≤ u ∧ u ≤ 0xDFFF then
      if u ≤ 0xDBFF ∧ 0xDC00 ≤ v ∧ v ≤ 0xDFFF then
        Char.ofNat (0x10000 + (u - 0xD800) * 0x400 + (v - 0xDC00)) :: fromUtf16 rest
      else replacement :: fromUtf16 (v :: rest)
    else Char.ofNat u :: fromUtf16 (v :: rest)

/-- The units of a character. -/
def utf16 (c : Char) : List ℕ :=
  if c.toNat < 0x10000 then [c.toNat]
  else [0xD800 + (c.toNat - 0x10000) / 0x400, 0xDC00 + (c.toNat - 0x10000) % 0x400]

/-- A character is no half of a pair, and below the last one. -/
theorem char_range (c : Char) : (c.toNat < 0xD800 ∨ 0xDFFF < c.toNat) ∧ c.toNat < 0x110000 := by
  have hvalid := c.valid
  unfold UInt32.isValidChar Nat.isValidChar at hvalid
  unfold Char.toNat
  omega

/-- Text is read back from its units. -/
theorem fromUtf16_flatMap (cs : List Char) : fromUtf16 (cs.flatMap utf16) = cs := by
  induction cs with
  | nil => rfl
  | cons c cs ih =>
    obtain ⟨hhalf, hlast⟩ := char_range c
    rw [List.flatMap_cons, utf16]
    split
    · cases hrest : cs.flatMap utf16 with
      | nil =>
        rw [hrest] at ih
        rw [List.append_nil, fromUtf16, if_neg (by omega), Char.ofNat_toNat, ← ih]
        rfl
      | cons u rest =>
        rw [List.singleton_append, fromUtf16, if_neg (by omega), Char.ofNat_toNat, ← hrest, ih]
    · have hpair : 0x10000 + (0xD800 + (c.toNat - 0x10000) / 0x400 - 0xD800) * 0x400 +
          (0xDC00 + (c.toNat - 0x10000) % 0x400 - 0xDC00) = c.toNat := by omega
      rw [List.cons_append, List.cons_append, List.nil_append, fromUtf16, if_pos (by omega),
        if_pos (by omega), hpair, Char.ofNat_toNat, ih]

end Kerbridge.LossyText

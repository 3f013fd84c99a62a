import Mathlib.Data.List.DropRight

/-!
# Strings over the Unicode tables

The string operations every component shares, over the tables the standard
library and the normalization library compile in. Control characters and white
space are fixed by the Unicode standard and written out. Case mapping,
alphabetic classes, normalization and debug quoting are read from the tables,
so every result below holds for any version of them.
-/

namespace Kerbridge.UnicodeText

/-- The Unicode data no program text states: it is compiled into libraries. -/
class UnicodeTables where
  /-- Lowercase mapping of one character, which may expand to several. -/
  toLowercase : Char → List Char
  /-- Alphabetic or numeric, as `char::is_alphanumeric` reads them. -/
  alphanumeric : Char → Bool
  /-- The `Cased` property, consulted only around a capital sigma. -/
  cased : Char → Bool
  /-- The `Case_Ignorable` property, consulted only around a capital sigma. -/
  caseIgnorable : Char → Bool
  /-- Canonical composition (NFC) of a whole string. -/
  nfc : List Char → List Char
  /-- A string as debug formatting prints it, quoted and escaped. -/
  debug : String → String

/-- `char::is_control`: the general category `Cc`. -/
def isControl (c : Char) : Bool :=
  decide (c.toNat < 0x20) || (decide (0x7F ≤ c.toNat) && decide (c.toNat ≤ 0x9F))

/-- `char::is_whitespace`: the `White_Space` property. -/
def isWhitespace (c : Char) : Bool :=
  (decide (9 ≤ c.toNat) && decide (c.toNat ≤ 13)) ||
    [0x20, 0x85, 0xA0, 0x1680, 0x2028, 0x2029, 0x202F, 0x205F, 0x3000].contains c.toNat ||
      (decide (0x2000 ≤ c.toNat) && decide (c.toNat ≤ 0x200A))

/-- `str::starts_with` on a string pattern. -/
def startsWith (s pattern : String) : Bool := pattern.toList.isPrefixOf s.toList

/-- `str::strip_prefix` on a string pattern. -/
def stripPrefix (s pattern : String) : Option String :=
  if startsWith s pattern then some (String.ofList (s.toList.drop pattern.toList.length)) else none

/-- `str::strip_suffix` on a string pattern. -/
def stripSuffix (s pattern : String) : Option String :=
  if pattern.toList.isSuffixOf s.toList then
    some (String.ofList (s.toList.take (s.toList.length - pattern.toList.length)))
  else none

/-- `str::trim_start_matches` on a character class. -/
def trimStartMatches (p : Char → Bool) (s : String) : String :=
  String.ofList (s.toList.dropWhile p)

/-- `str::trim_end_matches` on a character class. -/
def trimEndMatches (p : Char → Bool) (s : String) : String :=
  String.ofList (s.toList.rdropWhile p)

/-- `str::trim`. -/
def trim (s : String) : String := trimEndMatches isWhitespace (trimStartMatches isWhitespace s)

/-- `s.chars().take(n).collect()`: a cut by characters, never inside one. -/
def takeChars (n : ℕ) (s : String) : String := String.ofList (s.toList.take n)

/-- `str::split` on one character. An empty string has one empty field. -/
def split (c : Char) (s : String) : List String := (s.toList.splitOn c).map String.ofList

/-- `s.split(c).next()`: the text before the first separator. -/
def beforeFirst (c : Char) (s : String) : String := String.ofList (s.toList.takeWhile (· != c))

/-- `str::split_whitespace`. -/
def splitWhitespace (s : String) : List String :=
  ((s.toList.splitOnP isWhitespace).filter (· ≠ [])).map String.ofList

/-- `str::split_once` on one character. -/
def splitOnce (c : Char) (s : String) : Option (String × String) :=
  match s.toList.dropWhile (· != c) with
  | [] => none
  | _ :: rest => some (beforeFirst c s, String.ofList rest)

/-- The text before and behind the first occurrence of a pattern. -/
def cutAt (pattern : List Char) : List Char → Option (List Char × List Char)
  | [] => if pattern = [] then some ([], []) else none
  | c :: rest =>
    if pattern.isPrefixOf (c :: rest) then some ([], (c :: rest).drop pattern.length)
    else (cutAt pattern rest).map fun p => (c :: p.1, p.2)

/-- `str::split_once` on a string pattern. -/
def splitOnceOn (pattern s : String) : Option (String × String) :=
  (cutAt pattern.toList s.toList).map fun p => (String.ofList p.1, String.ofList p.2)

/-- `str::parse` at an unsigned integer type with values below `bound`. -/
def parseUnsigned (bound : ℕ) (s : String) : Option ℕ :=
  let digits :=
    match s.toList with
    | '+' :: rest => rest
    | cs => cs
  if digits.isEmpty || !digits.all Char.isDigit then none
  else
    let n := digits.foldl (fun acc c => 10 * acc + (c.toNat - 48)) 0
    if n < bound then some n else none

/-- The UTF-8 octets of a string. -/
def bytesOf (s : String) : List UInt8 := s.toList.flatMap String.utf8EncodeChar

/-- `str::eq_ignore_ascii_case`. -/
def eqIgnoreAsciiCase (a b : String) : Bool :=
  decide (a.toList.map Char.toLower = b.toList.map Char.toLower)

/-- No field of a split holds the separator. -/
theorem notMem_of_mem_split {c : Char} {s field : String} (h : field ∈ split c s) :
    c ∉ field.toList := by
  have hlist : ∀ cs : List Char, ∀ piece ∈ cs.splitOn c, c ∉ piece := by
    intro cs
    induction cs with
    | nil =>
      intro piece hp
      rw [List.splitOn_nil, List.mem_singleton] at hp
      simp [hp]
    | cons x cs ih =>
      rw [List.splitOn_cons_eq_if_modifyHead]
      split
      · intro piece hp
        rcases List.mem_cons.mp hp with rfl | hp
        · simp
        · exact ih piece hp
      · rename_i hx
        intro piece hp
        cases hcs : cs.splitOn c with
        | nil => exact absurd hcs (List.splitOn_ne_nil c cs)
        | cons first rest =>
          rw [hcs, List.modifyHead_cons, List.mem_cons] at hp
          rcases hp with rfl | hp
          · have hne : c ≠ x := by
              rintro rfl
              simp at hx
            have hfirst := ih first (by simp [hcs])
            simp [hne, hfirst]
          · exact ih piece (by simp [hcs, hp])
  obtain ⟨piece, hp, rfl⟩ := List.mem_map.mp h
  rw [String.toList_ofList]
  exact hlist _ piece hp

/-- The fields of a split, joined by the separator, are the text. -/
theorem intercalate_split (c : Char) (s : String) :
    [c].intercalate ((split c s).map String.toList) = s.toList := by
  have hfields : (split c s).map String.toList = s.toList.splitOn c := by
    simp [split, Function.comp_def]
  rw [hfields, List.intercalate_splitOn]

section Tables

variable [UnicodeTables]

/-- Skips case-ignorable characters, then asks whether a cased one follows. -/
def caseIgnorableThenCased (cs : List Char) : Bool :=
  match cs.dropWhile UnicodeTables.caseIgnorable with
  | [] => false
  | c :: _ => UnicodeTables.cased c

/-- Lowercases from a position on; `before` is the text passed, reversed. A
capital sigma is the one letter whose mapping reads its neighbours. -/
def lowercaseFrom (before : List Char) : List Char → List Char
  | [] => []
  | c :: rest =>
    let mapped :=
      if c = 'Σ' then
        if caseIgnorableThenCased before && !caseIgnorableThenCased rest then ['ς'] else ['σ']
      else UnicodeTables.toLowercase c
    mapped ++ lowercaseFrom (c :: before) rest

/-- `str::to_lowercase`. -/
def toLowercase (s : String) : String := String.ofList (lowercaseFrom [] s.toList)

end Tables

/-- The octets of a text are the bytes it is stored as. -/
theorem toByteArray_bytesOf (s : String) : (bytesOf s).toByteArray = s.toByteArray := by
  have htext : (String.ofList s.toList).toByteArray = s.toList.utf8Encode :=
    String.toByteArray_ofList
  rw [String.ofList_toList] at htext
  exact htext.symm

/-- A text, if its bytes are those of one. -/
def fromUtf8 (bytes : List UInt8) : Option String := String.fromUTF8? bytes.toByteArray

/-- A text is read back from its bytes. -/
theorem fromUtf8_bytesOf (s : String) : fromUtf8 (bytesOf s) = some s := by
  rw [fromUtf8, toByteArray_bytesOf, String.fromUTF8?, dif_pos s.isValidUTF8]
  rfl

/-- The octets of a text are as many as its size says. -/
theorem bytesOf_length (s : String) : (bytesOf s).length = s.utf8ByteSize := by
  rw [← String.size_toByteArray, ← toByteArray_bytesOf, List.size_toByteArray]

/-- The octets of a text begin with those of its first part. -/
theorem bytesOf_append (a b : String) : bytesOf (a ++ b) = bytesOf a ++ bytesOf b := by
  simp [bytesOf, String.toList_append]

/-- Tables that are right on ASCII and leave every other character alone. -/
@[reducible] def asciiTables : UnicodeTables where
  toLowercase c := [c.toLower]
  alphanumeric c := c.isAlphanum
  cased c := c.isAlpha
  caseIgnorable _ := false
  nfc := id
  debug s := "\"" ++ s ++ "\""

end Kerbridge.UnicodeText

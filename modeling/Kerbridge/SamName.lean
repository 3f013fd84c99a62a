import Kerbridge.UnicodeText

/-!
# What a sAMAccountName may be

The one rule the synchroniser derives names by and the issuer validates them
by, and the key under which the realm directory holds two names for equal.
-/

namespace Kerbridge.SamName

open UnicodeText

/-- Longest a name may be, in bytes of UTF-8. -/
def maxBytes : ℕ := 64

/-- The name `sanitize` derives when nothing of the source survives. -/
def fallback : String := "kbuser"

/-- Why a name was refused, with the value an operator has to look at. -/
inductive Rejected where
  | empty
  | tooLong (bytes : ℕ)
  | leadingDash
  | character (c : Char)
  deriving DecidableEq

variable [UnicodeTables]

/-- The character rule, an allowlist. -/
def allowed (c : Char) : Bool :=
  UnicodeTables.alphanumeric c || c == '.' || c == '-' || c == '_'

/-- Whether a name read out of the directory may be used. -/
def validate (sam : String) : Except Rejected Unit :=
  if sam.isEmpty then .error .empty
  else if maxBytes < sam.utf8ByteSize then .error (.tooLong sam.utf8ByteSize)
  else if startsWith sam "-" then .error .leadingDash
  else
    match sam.toList.find? fun c => !allowed c with
    | some c => .error (.character c)
    | none => .ok ()

/-- The comparison key of a name: the directory ignores case, a string does not. -/
def fold (sam : String) : String := toLowercase sam

/-- The budgeted filter of `sanitize`: a disallowed character is skipped, and
the first allowed one past either budget ends the copy. -/
def sanitizeLoop (maxChars maxLen : ℕ) (out : List Char) : List Char → List Char
  | [] => out
  | c :: rest =>
    if !allowed c then sanitizeLoop maxChars maxLen out rest
    else if maxChars ≤ out.length || maxLen < (String.ofList out).utf8ByteSize + c.utf8Size then out
    else sanitizeLoop maxChars maxLen (out ++ [c]) rest

/-- Folds an arbitrary source string into a name `validate` accepts. -/
def sanitize (source : String) (maxChars maxLen : ℕ) : String :=
  let out := sanitizeLoop maxChars maxLen [] (source.toList.flatMap UnicodeTables.toLowercase)
  let trimmed :=
    trimEndMatches (fun c => c == '.' || c == '-')
      (trimStartMatches (· == '-') (String.ofList out))
  if trimmed.isEmpty then fallback else trimmed

end Kerbridge.SamName

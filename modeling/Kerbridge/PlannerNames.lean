import Kerbridge.DirectorySource
import Kerbridge.DistinguishedName
import Kerbridge.RealmState

/-!
# The names a plan writes

Login names, common names, and the distinguished names built from them. Both sets a
plan checks names against are lists read as sets: the keys of the login names that
are held, and the distinguished names as they are spelled.
-/

namespace Kerbridge.PlannerNames

open UnicodeText DirectorySource SamName DistinguishedName RealmState

/-- Why a cycle is refused before anything is touched. -/
inductive PlanError where
  /-- Login names that belong to another object. -/
  | nameCollision (names : List String)
  deriving DecidableEq

/-- The first four characters of a subject: the suffix that disambiguates. -/
def oid4 (oid : Subject) : String := takeChars 4 oid

/-- What cannot appear in a name a plan writes. -/
def nameReserved : List Char :=
  [',', '+', '"', '\\', '<', '>', ';', '=', '/', '[', ']', ':', '|', '*', '?']

/-- A character of a display name, as it enters a name. -/
def nameChar (c : Char) : Char := if isControl c || nameReserved.contains c then ' ' else c

/-- A display name as the value of a name component, or nothing when nothing of it
survives. -/
def safeName (value : String) : Option String :=
  let replaced := String.ofList (value.toList.map nameChar)
  let trimmed := trim (trimStartMatches (· == '#') (trim replaced))
  if trimmed.isEmpty then none else some trimmed

/-- The longest group suffix accepted. -/
def maxGroupSuffix : ℕ := 20

/-- Why a text cannot be a group suffix. -/
inductive SuffixRejection where
  | tooLong
  | character (c : Char)
  deriving DecidableEq

/-- Why a text cannot be a group suffix, or nothing if it can. -/
def groupSuffixRejection (suffix : String) : Option SuffixRejection :=
  if maxGroupSuffix < suffix.length then some .tooLong
  else
    (suffix.toList.find? fun c => isControl c || isWhitespace c || nameReserved.contains c).map
      .character

/-- The empty text is accepted: group names that end as they are. -/
theorem emptySuffix_accepted : groupSuffixRejection "" = none := rfl

/-- `(CN, sAMAccountName)` of a synchronized group; the suffix lands on the second
alone, and is spent from its budget. -/
def groupNames (displayName : String) (oid : Subject) (suffix : String) : String × String :=
  let cn := (safeName displayName).getD ("group-" ++ oid4 oid)
  let base := takeChars (64 - suffix.length) cn
  (cn, trimEndMatches isWhitespace base ++ suffix)

/-- A distinguished name in the unit for `cn`, suffixed if the plain form is taken,
with the names taken afterwards. -/
def freshDn (cn : String) (oid : Subject) (idpOu : String) (taken : List String) :
    String × List String :=
  let plain := "CN=" ++ cn ++ "," ++ idpOu
  let dn := if plain ∈ taken then "CN=" ++ cn ++ " (" ++ oid4 oid ++ ")," ++ idpOu else plain
  (dn, dn :: taken)

variable [UnicodeTables]

/-- A name of the directory reshaped into one that may be written. -/
def sanitizeSam (name : String) (maxlen : ℕ) : String :=
  sanitize (String.ofList (UnicodeTables.nfc name.toList)) maxlen maxBytes

/-- What retirement gives an object: its login name, its common name, and the sets
afterwards. -/
structure RetiredNames where
  sam : String
  cn : String
  samKeys : List String
  takenDns : List String

/-- The names of an object being retired: recognizable, and obviously retired. -/
def retiredNames (dn sam label : String) (oid : Subject) (samKeys takenDns : List String) :
    RetiredNames :=
  let plainSam := retiredPrefix ++ sanitizeSam sam 11
  let newSam :=
    if fold plainSam ∈ samKeys then
      retiredPrefix ++ sanitizeSam sam 6 ++ "-" ++ oid4 oid
    else plainSam
  let label := (safeName label).getD newSam
  let parent := parentOf dn
  let plainCn := label ++ " (retired)"
  let cn :=
    if "CN=" ++ plainCn ++ "," ++ parent ∈ takenDns then
      trim label ++ " (retired " ++ oid4 oid ++ ")"
    else plainCn
  ⟨newSam, cn, fold newSam :: samKeys, ("CN=" ++ cn ++ "," ++ parent) :: takenDns⟩

/-- The names an account's login name may be minted from; an account that offers
nothing stands in with the fallback. -/
def offered (du : DesiredUser) : List String :=
  if du.nameCandidates = [] then [fallback] else du.nameCandidates.map NameCandidate.text

/-- `(sam, upn, cn)` for an account: its first name that is free, or the first one
suffixed. -/
def allocNames (du : DesiredUser) (oid : Subject) (samKeys : List String) (upnSuffix : String) :
    Except PlanError (String × String × String) := do
  let sam ←
    match (offered du).find? fun name => decide (fold name ∉ samKeys) with
    | some name => .ok name
    | none =>
      let suffixed := takeChars 15 ((offered du).headD fallback) ++ "-" ++ oid4 oid
      if fold suffixed ∈ samKeys then
        .error (.nameCollision
          [UnicodeTables.debug suffixed ++ " (user " ++ oid ++ ")"])
      else .ok suffixed
  let cn := (safeName du.displayName).getD sam
  return (sam, sam ++ "@" ++ upnSuffix, cn)

end Kerbridge.PlannerNames

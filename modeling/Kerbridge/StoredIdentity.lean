import Kerbridge.UnicodeText

/-!
# The stored identity of an account

A source name and an opaque subject, encoded into one directory attribute. The
two are escaped, so the delimiter splits a stored value in one way only, and the
encoded text is escaped again before it enters a search filter.
-/

namespace Kerbridge.StoredIdentity

open UnicodeText

/-- Why a value is not an identity. -/
inductive IdentityError where
  | unknownVersion
  /-- Not exactly three fields. -/
  | fieldCount (n : ℕ)
  | badEscape
  | emptyField (name : String)
  /-- A subject that is not in the form its adapter requires. -/
  | subjectShape (want : String)
  /-- Longer than the attribute holds, in characters. -/
  | tooLong (n : ℕ)
  deriving DecidableEq

/-- The sentence of an error. -/
def IdentityError.text : IdentityError → String
  | .unknownVersion => "unknown external-identity version tag"
  | .fieldCount n => "expected 3 fields, found " ++ toString n
  | .badEscape => "malformed percent escape"
  | .emptyField name => "empty " ++ name ++ " field"
  | .subjectShape want => "subject is not " ++ want
  | .tooLong n => toString n ++ " characters, over the 256 the attribute holds"

/-- The configured name of one IdP, which is never empty. -/
structure Source where
  name : String
  nonempty : name ≠ ""
  deriving DecidableEq

/-- `Source::new`. -/
def Source.new (name : String) : Except IdentityError Source :=
  if h : name = "" then .error (.emptyField "source name") else .ok ⟨name, h⟩

/-- The format version tag. -/
def versionTag : String := "kb1"

/-- The tag, the source name and the subject. -/
def fieldCount : ℕ := 3

/-- What the directory attribute holds, in characters. -/
def maxIdentityLen : ℕ := 256

/-- One character of a field: the introducer and the delimiter are escaped. -/
def escapeChar (c : Char) : List Char :=
  if c = '%' then ['%', '2', '5'] else if c = '|' then ['%', '7', 'C'] else [c]

/-- A field with the delimiter escaped out of it. -/
def escapeField (field : String) : String := String.ofList (field.toList.flatMap escapeChar)

/-- The reading loop of `unescapeField`. -/
def unescapeLoop : List Char → Except IdentityError (List Char)
  | [] => .ok []
  | c :: rest =>
    if c ≠ '%' then (unescapeLoop rest).map (c :: ·)
    else
      match rest with
      | hi :: lo :: rest =>
        if hi = '2' ∧ lo.toUpper = '5' then (unescapeLoop rest).map ('%' :: ·)
        else if hi = '7' ∧ lo.toUpper = 'C' then (unescapeLoop rest).map ('|' :: ·)
        else .error .badEscape
      | _ => .error .badEscape

/-- A field read back; either letter case of the delimiter's escape is accepted. -/
def unescapeField (field : String) : Except IdentityError String :=
  (unescapeLoop field.toList).map String.ofList

/-- The stored text of a source name and a subject. -/
def encodeFields (name subject : String) : String :=
  versionTag ++ "|" ++ escapeField name ++ "|" ++ escapeField subject

/-- An identity: its subject is not empty and its stored text fits the attribute. -/
structure ExternalIdentity where
  source : Source
  subject : String
  nonempty : subject ≠ ""
  fits : (encodeFields source.name subject).length ≤ maxIdentityLen
  deriving DecidableEq

/-- The only way to build an identity. -/
def ExternalIdentity.new (source : Source) (subject : String) :
    Except IdentityError ExternalIdentity :=
  if hs : subject = "" then .error (.emptyField "subject")
  else if hl : (encodeFields source.name subject).length ≤ maxIdentityLen then
    .ok ⟨source, subject, hs, hl⟩
  else .error (.tooLong (encodeFields source.name subject).length)

/-- The stored text of an identity. -/
def ExternalIdentity.encode (id : ExternalIdentity) : String :=
  encodeFields id.source.name id.subject

/-- A stored value parsed back into an identity. -/
def ExternalIdentity.decode (value : String) : Except IdentityError ExternalIdentity :=
  match split '|' value with
  | [tag, name, subject] =>
    if tag ≠ versionTag then .error .unknownVersion
    else do
      let source ← Source.new (← unescapeField name)
      ExternalIdentity.new source (← unescapeField subject)
  | fields => .error (.fieldCount fields.length)

/-- One character of a filter assertion value. -/
def escapeFilterChar (c : Char) : List Char :=
  if c = '\\' then ['\\', '5', 'c']
  else if c = '*' then ['\\', '2', 'a']
  else if c = '(' then ['\\', '2', '8']
  else if c = ')' then ['\\', '2', '9']
  else if c = '\x00' then ['\\', '0', '0']
  else [c]

/-- A filter assertion value with every character the filter grammar reads escaped. -/
def escapeLdapFilterValue (value : String) : String :=
  String.ofList (value.toList.flatMap escapeFilterChar)

/-- An equality filter matching exactly one identity. -/
def ExternalIdentity.ldapFilter (id : ExternalIdentity) : String :=
  "(msDS-ExternalDirectoryObjectId=" ++ escapeLdapFilterValue id.encode ++ ")"

/-- A lowercase hexadecimal digit. -/
def isLowerHex (c : Char) : Bool :=
  (decide ('0' ≤ c) && decide (c ≤ '9')) || (decide ('a' ≤ c) && decide (c ≤ 'f'))

/-- The canonical GUID form: hexadecimal groups of fixed widths, in lowercase. -/
def isGuid (s : String) : Bool :=
  decide ((split '-' s).map (fun p => p.utf8ByteSize) = [8, 4, 4, 4, 12]) &&
    (split '-' s).all fun p => p.toList.all isLowerHex

/-- `str::to_ascii_lowercase`. -/
def toAsciiLowercase (s : String) : String := String.ofList (s.toList.map Char.toLower)

/-- The sub-authorities of a security identifier, little-endian. -/
def subAuthorities : ℕ → List UInt8 → String
  | count + 1, a :: b :: c :: d :: rest =>
    "-" ++ toString (a.toNat + 256 * (b.toNat + 256 * (c.toNat + 256 * d.toNat))) ++
      subAuthorities count rest
  | _, _ => ""

/-- A binary security identifier in its text form. -/
def decodeSid : List UInt8 → Option String
  | revision :: count :: a₀ :: a₁ :: a₂ :: a₃ :: a₄ :: a₅ :: rest =>
    if rest.length < 4 * count.toNat then none
    else
      let authority := [a₀, a₁, a₂, a₃, a₄, a₅].foldl (fun acc b => 256 * acc + b.toNat) 0
      some ("S-" ++ toString revision.toNat ++ "-" ++ toString authority ++
        subAuthorities count.toNat rest)
  | _ => none

/-- An entry's security identifier, from whichever map the client put it in: the
one of values that are no text, or the one of values that are. -/
def decodeSidAttr (binary : List (List UInt8)) (text : List String) : Option String :=
  match binary.head? <|> text.head?.map bytesOf with
  | some raw => decodeSid raw
  | none => none

/-- A character that needs no escape is read as itself. -/
theorem unescapeLoop_cons {c : Char} (h : c ≠ '%') (rest : List Char) :
    unescapeLoop (c :: rest) = (unescapeLoop rest).map (c :: ·) := by
  rw [unescapeLoop.eq_def]
  simp only [ne_eq, h, not_false_eq_true, if_true]

/-- Escaping a field is undone exactly. -/
theorem unescapeLoop_escape (s : List Char) :
    unescapeLoop (s.flatMap escapeChar) = .ok s := by
  induction s with
  | nil => rfl
  | cons c s ih =>
    rw [List.flatMap_cons]
    by_cases hp : c = '%'
    · subst hp
      have hstep : unescapeLoop (['%', '2', '5'] ++ s.flatMap escapeChar) =
          (unescapeLoop (s.flatMap escapeChar)).map ('%' :: ·) := rfl
      rw [show escapeChar '%' = ['%', '2', '5'] from rfl, hstep, ih]
      rfl
    · by_cases hd : c = '|'
      · subst hd
        have hstep : unescapeLoop (['%', '7', 'C'] ++ s.flatMap escapeChar) =
            (unescapeLoop (s.flatMap escapeChar)).map ('|' :: ·) := rfl
        rw [show escapeChar '|' = ['%', '7', 'C'] from rfl, hstep, ih]
        rfl
      · have hc : escapeChar c = [c] := by simp [escapeChar, hp, hd]
        rw [hc, List.singleton_append, unescapeLoop_cons hp, ih]
        rfl

/-- A field survives its encoding. -/
theorem unescapeField_escapeField (field : String) :
    unescapeField (escapeField field) = .ok field := by
  unfold unescapeField escapeField
  rw [String.toList_ofList, unescapeLoop_escape]
  simp [Except.map, String.ofList_toList]

/-- An escaped field holds no delimiter. -/
theorem delimiter_notMem_escape (s : List Char) : '|' ∉ s.flatMap escapeChar := by
  intro h
  obtain ⟨c, _, hc⟩ := List.mem_flatMap.mp h
  unfold escapeChar at hc
  split at hc
  · simp at hc
  · split at hc
    · simp at hc
    · rename_i hd
      exact hd (List.mem_singleton.mp hc).symm

/-- The three fields of a stored text are read back as they were written. -/
theorem split_encodeFields (name subject : String) :
    split '|' (encodeFields name subject) =
      [versionTag, escapeField name, escapeField subject] := by
  have hfree : ∀ s : String, ∀ c ∈ (escapeField s).toList, (c == '|') = false := by
    intro s c hc
    rw [escapeField, String.toList_ofList] at hc
    have hne : c ≠ '|' := fun h => delimiter_notMem_escape _ (h ▸ hc)
    simpa using hne
  have htag : ∀ c ∈ versionTag.toList, (c == '|') = false := by simp [versionTag]
  have htext : (encodeFields name subject).toList =
      versionTag.toList ++ '|' ::
        ((escapeField name).toList ++ '|' :: (escapeField subject).toList) := by
    simp [encodeFields, String.toList_append]
  unfold split
  rw [htext, List.splitOn_eq_splitOnP,
    List.splitOnP_append_cons_of_forall_mem htag '|' (by simp),
    List.splitOnP_append_cons_of_forall_mem (hfree name) '|' (by simp),
    List.splitOnP_eq_singleton (hfree subject)]
  simp [String.ofList_toList]

/-- An identity is the one its own parts build. -/
theorem ExternalIdentity.new_self (id : ExternalIdentity) :
    ExternalIdentity.new id.source id.subject = .ok id := by
  unfold ExternalIdentity.new
  rw [dif_neg id.nonempty, dif_pos id.fits]

/-- A source is the one its own name builds. -/
theorem Source.new_name (s : Source) : Source.new s.name = .ok s := by
  unfold Source.new
  rw [dif_neg s.nonempty]

/-- A stored identity is read back as the identity it was. -/
theorem ExternalIdentity.decode_of_encode (id : ExternalIdentity) :
    ExternalIdentity.decode id.encode = .ok id := by
  unfold ExternalIdentity.decode ExternalIdentity.encode
  rw [split_encodeFields]
  simp only [ne_eq, not_true_eq_false, if_false, unescapeField_escapeField]
  show (Source.new id.source.name >>= fun source =>
    ExternalIdentity.new source id.subject) = .ok id
  rw [Source.new_name]
  exact id.new_self

/-- Two identities with one stored text are one identity. -/
theorem ExternalIdentity.encode_injective {a b : ExternalIdentity} (h : a.encode = b.encode) :
    a = b := by
  have hd := a.decode_of_encode
  rw [h, b.decode_of_encode] at hd
  exact (Except.ok.inj hd).symm

/-- An identity that was built has the subject it was built from. -/
theorem ExternalIdentity.new_ok {source : Source} {subject : String} {id : ExternalIdentity}
    (h : ExternalIdentity.new source subject = .ok id) :
    id.source = source ∧ id.subject = subject := by
  unfold ExternalIdentity.new at h
  split at h
  · cases h
  · split at h
    · cases h
      exact ⟨rfl, rfl⟩
    · cases h

/-- A source that was built has the name it was built from. -/
theorem Source.new_ok {name : String} {source : Source} (h : Source.new name = .ok source) :
    source.name = name := by
  unfold Source.new at h
  split at h
  · cases h
  · cases h
    rfl

end Kerbridge.StoredIdentity

import Mathlib
import Kerbridge.LdifReader
import Kerbridge.SecurityDescriptor

/-!
# Denying an account the writing of its own identity

The attribute that says which cloud identity an account is may not be written by the
account. The bootstrap adds an entry that denies it, to the descriptor every new user is
given, and to each user below the providers' unit. Here is the bootstrap's step, over the
command-line tools it drives, and the directory the tools act on.
-/

namespace Kerbridge.Setup

open UnicodeText Ldif Sddl

section Reading

/-- Bytes in hexadecimal digits. -/
def hexOf (bytes : List UInt8) : List Char :=
  bytes.flatMap fun b => [Nat.digitChar (b.toNat / 16), Nat.digitChar (b.toNat % 16)]

/-- Bytes held as text, each behind a backslash. -/
def escaped (raw : List UInt8) : String := String.ofList (raw.flatMap fun b => '\\' :: hexOf [b])

/-- `entries`: every entry of a search. -/
def entries (text : String) : List Entry := entriesBy escaped text.toList

/-- The value of a hexadecimal digit. -/
def hexValue (c : Char) : Option ℕ :=
  if c.isDigit then some (c.toNat - 48)
  else if 'a' ≤ c ∧ c ≤ 'f' then some (c.toNat - 87)
  else if 'A' ≤ c ∧ c ≤ 'F' then some (c.toNat - 55)
  else none

/-- `u8::from_str_radix` at sixteen. -/
def fromHex (s : List Char) : Option UInt8 :=
  let digits :=
    match s with
    | '+' :: rest => rest
    | cs => cs
  if digits.isEmpty then none
  else
    match digits.mapM hexValue with
    | none => none
    | some values =>
      let n := values.foldl (fun acc v => 16 * acc + v) 0
      if n < 256 then some (UInt8.ofNat n) else none

/-- `raw`: the bytes behind a value that was read from base64. -/
def raw (value : String) : Option (List UInt8) :=
  match (value.toList.splitOn '\\').tail.mapM fromHex with
  | some (b :: bytes) => some (b :: bytes)
  | _ => none

variable [UnicodeTables]

/-- The shape of a GUID as text. -/
def shaped (text : String) : Bool :=
  (bytesOf text).length = 36 && text.toList.all (fun c => (hexValue c).isSome || c = '-') &&
    (text.toList.zipIdx.filter fun p => p.1 = '-').map Prod.snd = [8, 13, 18, 23]

/-- `guid`: an attribute's identifier as text, from its sixteen bytes or from text. -/
def guid (value : String) : Except String String :=
  match raw value with
  | some bytes =>
    if bytes.length ≠ 16 then
      .error ("a GUID attribute came back as " ++ toString bytes.length ++ " bytes, not 16")
    else
      .ok (String.ofList (hexOf (bytes.take 4).reverse ++ '-' ::
        (hexOf ((bytes.drop 4).take 2).reverse ++ '-' ::
          (hexOf ((bytes.drop 6).take 2).reverse ++ '-' ::
            (hexOf ((bytes.drop 8).take 2) ++ '-' :: hexOf (bytes.drop 10))))))
  | none =>
    let text := trimEndMatches (fun c => c = '{' || c = '}')
      (trimStartMatches (fun c => c = '{' || c = '}') (trim value))
    if shaped text then .ok (String.ofList (text.toList.map Char.toLower))
    else .error ("not a GUID: " ++ UnicodeTables.debug value)

/-- `contains_ace`: whether the text of an entry stands anywhere in a descriptor, in any case. -/
def containsAce (sddl ace : String) : Bool :=
  decide ((toLowercase ace).toList <:+: (toLowercase sddl).toList)

end Reading

section Bootstrap

/-- The tools that act on a directory: what a search prints, an LDIF modification with its
options, and an entry applied to one object. -/
structure Tools (σ : Type) where
  ldbsearch : σ → List String → Except String String
  ldbmodify : σ → String → List String → Except String σ
  dsaclSet : σ → String → String → Except String σ

/-- The directory, and how many times it was written. -/
structure Work (σ : Type) where
  state : σ
  writes : ℕ

variable [UnicodeTables] {σ : Type} (db : Tools σ)

/-- `search`. -/
def search (s : σ) (args : List String) : Except String (List Entry) :=
  (db.ldbsearch s args).map entries

/-- What is asked for the schema's name. -/
def rootArgs : List String := ["-s", "base", "-b", "", "schemaNamingContext"]

/-- What is asked for the identity attribute. -/
def identityArgs (schemaDn : String) : List String :=
  ["-b", schemaDn, "-s", "sub", "(lDAPDisplayName=msDS-ExternalDirectoryObjectId)", "schemaIDGUID"]

/-- What is asked for one attribute of one object. -/
def attributeArgs (dn name : String) : List String := ["-b", dn, "-s", "base", name]

/-- What is asked for the users below a unit. -/
def usersArgs (parentOu : String) : List String :=
  ["-b", parentOu, "-s", "sub", "--controls=sd_flags:1:4", "(objectClass=user)",
    "nTSecurityDescriptor"]

/-- `schema_dn`. -/
def schemaDn (s : σ) : Except String String := do
  let found ← search db s rootArgs
  match found.head?.bind (first · "schemaNamingContext") with
  | some dn => .ok dn
  | none => .error "the rootDSE names no schemaNamingContext"

/-- `identity_attribute_guid`. -/
def identityAttributeGuid (s : σ) (schemaDn : String) : Except String String := do
  let found ← search db s (identityArgs schemaDn)
  match found.filterMap (first · "schemaIDGUID") with
  | [one] => guid one
  | [] => .error ("msDS-ExternalDirectoryObjectId is not in this schema. It is stock since the " ++
      "Server 2016 schema, so a directory without it is older than this design supports.")
  | many => .error (toString many.length ++ " attributes claim to be msDS-ExternalDirectoryObjectId")

/-- `attribute`. -/
def attributeOf (s : σ) (dn name : String) : Except String String := do
  let found ← search db s (attributeArgs dn name)
  match found.head?.bind (first · name) with
  | some value => .ok value
  | none => .error (dn ++ " has no " ++ name)

/-- The entry that denies an object the writing of an attribute of its own. -/
def denyText (guid : String) : String := "(OD;;WP;" ++ guid ++ ";;PS)"

/-- The object of the class every user is of. -/
def userClass (schemaDn : String) : String := "CN=User," ++ schemaDn

/-- The option without which the schema may not be written. -/
def schemaOption : String := "--option=dsdb:schema update allowed=yes"

/-- The modification that replaces the class default, but for the value and what follows. -/
def modifyHead (schemaDn : String) : String :=
  "dn: " ++ userClass schemaDn ++
    "\nchangetype: modify\nreplace: defaultSecurityDescriptor\ndefaultSecurityDescriptor: "

/-- What follows the value in a modification. -/
def modifyTail : String := "\n-\n\n"

/-- The class default is given the entry, unless it holds it. -/
def denyClassDefault (schemaDn deny : String) (w : Work σ) : Except String Unit × Work σ :=
  match attributeOf db w.state (userClass schemaDn) "defaultSecurityDescriptor" with
  | .error e => (.error e, w)
  | .ok current =>
    if containsAce current deny then (.ok (), w)
    else
      match insertFirstAce current deny with
      | .error e => (.error e, w)
      | .ok updated =>
        match db.ldbmodify w.state (modifyHead schemaDn ++ updated ++ modifyTail)
          [schemaOption] with
        | .error _ =>
          (.error "denying SELF the identity attribute on the user class default SD", w)
        | .ok state => (.ok (), ⟨state, w.writes + 1⟩)

/-- Each user is given the entry, unless it holds it. -/
def sweep (deny : String) : List Entry → Work σ → Except String Unit × Work σ
  | [], w => (.ok (), w)
  | entry :: rest, w =>
    match first entry "dn", first entry "nTSecurityDescriptor" with
    | some dn, some sddl =>
      if containsAce sddl deny then sweep deny rest w
      else
        match db.dsaclSet w.state dn deny with
        | .error _ => (.error ("denying SELF the identity attribute on " ++ dn), w)
        | .ok state => sweep deny rest ⟨state, w.writes + 1⟩
    | _, _ => sweep deny rest w

/-- `deny_self_identity_write`. -/
def denySelfIdentityWrite (parentOu : String) (w : Work σ) : Except String Unit × Work σ :=
  match schemaDn db w.state with
  | .error e => (.error e, w)
  | .ok schema =>
    match identityAttributeGuid db w.state schema with
    | .error e => (.error e, w)
    | .ok guid =>
      match denyClassDefault db schema (denyText guid) w with
      | (.error e, w) => (.error e, w)
      | (.ok (), w) =>
        match search db w.state (usersArgs parentOu) with
        | .error e => (.error e, w)
        | .ok found => sweep db (denyText guid) found w

end Bootstrap

section Directory

/-- The name of an object: an attribute and its value, possibly of several. -/
abbrev Dn := {text : String // '=' ∈ text.toList}

/-- An object with its descriptor. -/
structure Secured where
  dn : Dn
  descriptor : Descriptor

/-- A directory: its schema, the identity attribute there, the descriptor new users are given,
the users below the providers' unit, and every other object. -/
structure Sam where
  schemaDn : Dn
  identityDn : Dn
  identityGuid : List UInt8
  classDefault : String
  users : List Secured
  others : List Secured
  distinct : ((users ++ others).map Secured.dn).Nodup

/-- An entry put before every other of the object of that name. -/
def prependAt (dn : String) (a : Ace) (o : Secured) : Secured :=
  if o.dn.1 = dn then { o with descriptor := o.descriptor.prepend a } else o

/-- Putting an entry leaves the names. -/
theorem map_dn_prependAt (dn : String) (a : Ace) (os : List Secured) :
    (os.map (prependAt dn a)).map Secured.dn = os.map Secured.dn := by
  rw [List.map_map]
  refine List.map_congr_left ?_
  intro o _
  simp only [Function.comp_apply, prependAt]
  split
  · rfl
  · rfl

/-- A directory with an entry put before every other of one object. -/
def Sam.prepend (s : Sam) (dn : String) (a : Ace) : Sam where
  schemaDn := s.schemaDn
  identityDn := s.identityDn
  identityGuid := s.identityGuid
  classDefault := s.classDefault
  users := s.users.map (prependAt dn a)
  others := s.others.map (prependAt dn a)
  distinct := by
    rw [List.map_append, map_dn_prependAt, map_dn_prependAt, ← List.map_append]
    exact s.distinct

/-- An entry, from its text. -/
def aceOf (text : List Char) : Option Ace :=
  if h : text.head? = some '(' ∧ text.getLast? = some ')' then some ⟨text, h.1, h.2⟩ else none

/-- Whether a search prints a value as it is: letters that can be printed, of which the first
is neither a blank nor a colon. -/
def isSafe (value : List UInt8) : Bool :=
  value.all (fun b => 0x20 ≤ b && b ≤ 0x7e) && value.head? ≠ some 0x20 && value.head? ≠ some 0x3a

/-- A record prints an object with one attribute. -/
structure RecordOf (dn : List UInt8) (attr : String) (value : List UInt8) (r : Record) : Prop where
  dn : r.dn.value = dn
  lines : ∃ l, r.lines = [l] ∧ l.attr = attr.toList ∧ l.value = value
  safely : ∀ l ∈ r.all, l.plain = isSafe l.value

/-- The list that decides access to an object, as text. -/
def Secured.dacl (o : Secured) : String := String.ofList o.descriptor.daclOnly.print

/-- How each search prints what it finds, and which uses of a tool do not fail for a reason of
their own. -/
structure Printer where
  rootDse : Dn → Document
  identity : Dn → List UInt8 → Document
  classDefault : Dn → String → Document
  users : List Secured → Document
  up : Sam → List String → Bool
  rootDse_records : ∀ schemaDn, ∃ r, (rootDse schemaDn).records = [r] ∧
    RecordOf [] "schemaNamingContext" (bytesOf schemaDn.1) r
  identity_records : ∀ dn value, ∃ r, (identity dn value).records = [r] ∧
    RecordOf (bytesOf dn.1) "schemaIDGUID" value r
  classDefault_records : ∀ schemaDn value, ∃ r, (classDefault schemaDn value).records = [r] ∧
    RecordOf (bytesOf (userClass schemaDn.1)) "defaultSecurityDescriptor" (bytesOf value) r
  users_records : ∀ os, List.Forall₂ (fun r (o : Secured) =>
    RecordOf (bytesOf o.dn.1) "nTSecurityDescriptor" (bytesOf o.dacl) r) (users os).records os

/-- What a search prints. It fails where there is no object to start from. -/
def Printer.ldbsearch (p : Printer) (ou : String) (s : Sam) (args : List String) :
    Except String String :=
  if !p.up s args then .error "ldbsearch failed"
  else if args = rootArgs then .ok (String.ofList (p.rootDse s.schemaDn).print)
  else if args = identityArgs s.schemaDn.1 then .ok (String.ofList (p.identity s.identityDn s.identityGuid).print)
  else if args = attributeArgs (userClass s.schemaDn.1) "defaultSecurityDescriptor" then
    .ok (String.ofList (p.classDefault s.schemaDn s.classDefault).print)
  else if args = usersArgs ou then .ok (String.ofList (p.users s.users).print)
  else .error "No such Base DN"

/-- The class default is replaced by the value of a modification, with the option only. -/
def Printer.ldbmodify (p : Printer) (s : Sam) (ldif : String) (options : List String) :
    Except String Sam :=
  if !p.up s (ldif :: options) then .error "ldbmodify failed"
  else if options ≠ [schemaOption] then .error "schema update not allowed"
  else
    match (stripPrefix ldif (modifyHead s.schemaDn.1)).bind (stripSuffix · modifyTail) with
    | some value => .ok { s with classDefault := value }
    | none => .error "ldbmodify failed"

/-- The entry is put before every other of the object of that name. It fails when there is
none. -/
def Printer.dsaclSet (p : Printer) (s : Sam) (dn sddl : String) : Except String Sam :=
  if !p.up s [dn, sddl] then .error "dsacl set failed"
  else
    match aceOf sddl.toList with
    | none => .error "Unable to parse SDDL"
    | some a =>
      if ∃ o ∈ s.users ++ s.others, o.dn.1 = dn then .ok (s.prepend dn a)
      else .error "No such object"

/-- The tools, over how the searches print. -/
def Printer.tools (p : Printer) (ou : String) : Tools Sam :=
  ⟨p.ldbsearch ou, p.ldbmodify, p.dsaclSet⟩

end Directory

end Kerbridge.Setup

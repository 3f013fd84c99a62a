import Kerbridge.Base64
import Kerbridge.LossyText

/-!
# The text form of a directory search

One attribute value a line, plain where it is text and in base64 otherwise, with
long lines continued, records between blank lines, and comments and referrals
between records. Here are the issuer's reader, and what is printed.
-/

namespace Kerbridge.Ldif

open UnicodeText LossyText

/-- A line without a carriage return at its end. -/
def dropReturn (line : List Char) : List Char :=
  if line.getLast? = some '\r' then line.dropLast else line

/-- `str::lines`: a line ends in a line feed, before which a carriage return is dropped. The
last line may end with the text. -/
def lines (text : List Char) : List (List Char) :=
  let parts := text.splitOn '\n'
  let closed := parts.dropLast.map dropReturn
  let last := parts.getLast?.getD []
  if last = [] then closed else closed ++ [last]

/-- One entry's attributes with their values, each attribute once. -/
abbrev Entry := List (String × List String)

/-- The values of an attribute. -/
def Entry.values (e : Entry) (attr : String) : List String := (e.lookup attr).getD []

/-- One more value of an attribute. -/
def Entry.push (attr value : String) : Entry → Entry
  | [] => [(attr, [value])]
  | p :: rest => if p.1 = attr then (attr, p.2 ++ [value]) :: rest else p :: Entry.push attr value rest

/-- The first value of an attribute. -/
def first (e : Entry) (attr : String) : Option String := (e.values attr).head?

/-- The attribute being read: its name, its text so far, and whether that is base64. -/
abbrev Pending := List Char × List Char × Bool

/-- What the attribute being read amounts to, unless it cannot be decoded. -/
def Pending.value : Pending → Option (String × String)
  | (attr, text, true) =>
    (Base64.decode text).map fun raw => (String.ofList attr, fromUtf8Lossy raw)
  | (attr, text, false) => some (String.ofList attr, String.ofList text)

/-- The attribute being read is done with. -/
def flush (current : Entry) (pending : Option Pending) : Entry :=
  match pending.bind Pending.value with
  | some (attr, value) => current.push attr value
  | none => current

/-- What has been read: whole entries, the one being read, and its attribute being read. -/
structure State where
  entries : List Entry
  current : Entry
  pending : Option Pending

/-- One line. -/
def readLine (s : State) (line : List Char) : State :=
  match line with
  | ' ' :: rest =>
    { s with pending := s.pending.map fun (attr, text, coded) => (attr, text ++ rest, coded) }
  | _ =>
    let current := flush s.current s.pending
    if line = [] ∨ line.head? = some '#' then
      if line = [] ∧ (current.lookup "dn").isSome then ⟨s.entries ++ [current], [], none⟩
      else ⟨s.entries, [], none⟩
    else
      match cutAt ":: ".toList line with
      | some (attr, text) => ⟨s.entries, current, some (attr, text, true)⟩
      | none =>
        match cutAt ": ".toList line with
        | some (attr, text) => ⟨s.entries, current, some (attr, text, false)⟩
        | none => ⟨s.entries, current, none⟩

/-- The entries of a text that carry a name. -/
def ldifEntries (text : List Char) : List Entry :=
  ((lines text ++ [[]]).foldl readLine ⟨[], [], none⟩).entries

section Printing

/-- The characters of ASCII bytes. -/
def asciiChars (bytes : List UInt8) : List Char := bytes.map fun b => Char.ofNat b.toNat

/-- Whether bytes may be printed as they are: ASCII, and no line ends in them. -/
def isPlain (bytes : List UInt8) : Bool := bytes.all fun b => b < 128 && b ≠ 10 && b ≠ 13

/-- Whether a name may stand before the separator. -/
def isAttribute (attr : List Char) : Bool :=
  !attr.isEmpty && attr.all fun c => c ≠ ':' && c ≠ ' ' && c ≠ '#' && c ≠ '\n' && c ≠ '\r'

/-- One attribute value as it is printed: plain or in base64, in pieces that are folded
into one line. -/
structure Line where
  attr : List Char
  value : List UInt8
  plain : Bool
  head : List Char
  folds : List (List Char)
  named : isAttribute attr = true
  safe : plain = true → isPlain value = true
  folded : head ++ folds.flatten = if plain then asciiChars value else Base64.encode value

/-- The separator of a line. -/
def Line.separator (l : Line) : List Char := if l.plain then [':', ' '] else [':', ':', ' ']

/-- A line as it is printed. -/
def Line.print (l : Line) : List (List Char) :=
  (l.attr ++ l.separator ++ l.head) :: l.folds.map fun fold => ' ' :: fold

/-- One record: its name, and its attribute values. -/
structure Record where
  dn : Line
  lines : List Line
  named : dn.attr = "dn".toList
  others : ∀ l ∈ lines, l.attr ≠ "dn".toList

/-- The lines of a record. -/
def Record.all (r : Record) : List Line := r.dn :: r.lines

/-- The values of an attribute in a record, as text. -/
def Record.values (r : Record) (attr : String) : List String :=
  (r.all.filter fun l => String.ofList l.attr = attr).map fun l => fromUtf8Lossy l.value

/-- A text without a line feed. -/
abbrev Text := {text : List Char // '\n' ∉ text}

/-- A text on several lines, each but the first behind a blank. -/
def printFolded (text : List Char) (folds : List Text) : List (List Char) :=
  text :: folds.map fun fold => ' ' :: fold.1

/-- What may be printed: a record, and between records comments, referrals and blank lines. -/
inductive Block where
  | record (r : Record)
  | comment (text : Text) (folds : List Text)
  | referral (urls : List (Text × List Text))
  | blank

/-- A block as it is printed. A record and a referral end in a blank line. -/
def Block.print : Block → List (List Char)
  | .record r => r.all.flatMap Line.print ++ [[]]
  | .comment text folds => printFolded ('#' :: text.1) folds
  | .referral urls => (urls.flatMap fun u => printFolded ("ref: ".toList ++ u.1.1) u.2) ++ [[]]
  | .blank => [[]]

/-- What a search prints. The last record may end with the text, without a blank line. -/
structure Document where
  blocks : List Block
  last : Option Record

/-- The records of a document. -/
def Document.records (d : Document) : List Record :=
  (d.blocks.filterMap fun
    | .record r => some r
    | _ => none) ++ d.last.toList

/-- The lines of a document. -/
def Document.lines (d : Document) : List (List Char) :=
  d.blocks.flatMap Block.print ++ d.last.toList.flatMap fun r => r.all.flatMap Line.print

/-- A document as text, every line ended. -/
def Document.print (d : Document) : List Char := d.lines.flatMap fun line => line ++ ['\n']

end Printing

end Kerbridge.Ldif

import Kerbridge.Fallible
import Kerbridge.JsonText
import Kerbridge.UnicodeText

/-!
# The template of a notification's body

A template is literal text with placeholders. Every value is escaped as a string of a
document before it takes the place of its placeholder. A template is accepted when it
renders as a document with one set of sample values.
-/

namespace Kerbridge.Notify

open JsonText Fallible

/-- What a placeholder may name. -/
inductive Field where
  | event
  | severity
  | component
  | realm
  | timestamp
  | message
  | detail
  | icon
  deriving DecidableEq

/-- The placeholders and their names. -/
def Field.all : List (String × Field) :=
  [("EVENT", .event), ("SEVERITY", .severity), ("COMPONENT", .component), ("REALM", .realm),
    ("TIMESTAMP", .timestamp), ("MESSAGE", .message), ("DETAIL", .detail), ("ICON", .icon)]

/-- The field of a name. -/
def Field.lookup (name : String) : Option Field :=
  (Field.all.find? fun named => named.1 == name).map Prod.snd

/-- The placeholders, as an operator is told of them. -/
def Field.known : String :=
  ", ".intercalate (Field.all.map fun named => "%" ++ named.1 ++ "%")

/-- The values of one event. -/
structure Values where
  event : String
  severity : String
  component : String
  realm : String
  timestamp : String
  message : String
  detail : String
  icon : String

/-- The value of a field. -/
def Values.get (values : Values) : Field → String
  | .event => values.event
  | .severity => values.severity
  | .component => values.component
  | .realm => values.realm
  | .timestamp => values.timestamp
  | .message => values.message
  | .detail => values.detail
  | .icon => values.icon

/-- A piece of a template. -/
inductive Part where
  | literal (text : String)
  | field (field : Field)
  deriving DecidableEq

/-- A template: its pieces. -/
abbrev Template := List Part

/-- The library that reads documents and writes strings in them. -/
structure SerdeJson where
  /-- Whether a text is taken for a document. -/
  fromStr : String → Bool
  toString : String → String
  /-- Only documents are taken. -/
  fromStr_read : ∀ text, fromStr text = true →
    (JsonText.read (H := Empty) (plain text.toList)).isSome = true
  /-- A string is written between quotes, with what they require escaped. -/
  toString_eq : ∀ text,
    toString text = "\"" ++ String.ofList (JsonText.escape text.toList) ++ "\""

/-- Whether a text between two percent signs is shaped like a placeholder's name. -/
def isPlaceholder (name : List Char) : Bool :=
  !name.isEmpty && name.all fun c => (decide (65 ≤ c.toNat) && decide (c.toNat ≤ 90)) ||
    (decide (48 ≤ c.toNat) && decide (c.toNat ≤ 57)) || c == '_'

/-- The text before the first percent sign, and the text behind it. -/
def atPercent (text : List Char) : Option (List Char × List Char) :=
  match text.dropWhile (· != '%') with
  | [] => none
  | _ :: after => some (text.takeWhile (· != '%'), after)

/-- A text is what is before the first percent sign, the sign, and what is behind it. -/
theorem atPercent_eq {text before after : List Char} (h : atPercent text = some (before, after)) :
    text = before ++ '%' :: after := by
  unfold atPercent at h
  split at h
  · cases h
  · rename_i sign rest hdrop
    cases h
    have hsign : sign = '%' := by
      have hhead := List.head?_dropWhile_not (· != '%') text
      rw [hdrop] at hhead
      simpa using hhead
    subst hsign
    rw [← hdrop, List.takeWhile_append_dropWhile]

/-- What is behind a percent sign is shorter. -/
theorem atPercent_length {text before after : List Char}
    (h : atPercent text = some (before, after)) : after.length < text.length := by
  rw [atPercent_eq h, List.length_append, List.length_cons]
  omega

/-- Literal text, unless it is empty. -/
def literalPart (text : List Char) : List Part :=
  if text = [] then [] else [.literal (String.ofList text)]

/-- The pieces of the rest of a template, behind literal text. -/
def partsFrom (literal rest : List Char) : Except String Template :=
  match _hfound : atPercent rest with
  | none => .ok (literalPart (literal ++ rest))
  | some (before, after) =>
    match _hclosed : atPercent after with
    | some (name, tail) =>
      if isPlaceholder name then
        match Field.lookup (String.ofList name) with
        | some field =>
          (partsFrom [] tail).map fun parts => literalPart (literal ++ before) ++ .field field :: parts
        | none => .error ("the notification template names %" ++ String.ofList name ++
            "%, which is not a placeholder. Known: " ++ Field.known)
      else partsFrom (literal ++ before ++ ['%']) after
    | none => partsFrom (literal ++ before ++ ['%']) after
termination_by rest.length
decreasing_by
  · exact lt_trans (atPercent_length _hclosed) (atPercent_length _hfound)
  · exact atPercent_length _hfound
  · exact atPercent_length _hfound

/-- A template's pieces. -/
def parts (raw : String) : Except String Template := partsFrom [] raw.toList

/-- A value as it stands in a string: as the library writes it, without the quotes. -/
def escape (serde : SerdeJson) (value : String) : String :=
  String.ofList (serde.toString value).toList.tail.dropLast

/-- A template with values in the places of its placeholders. -/
def Template.render (serde : SerdeJson) (template : Template) (values : Values) : String :=
  String.join (template.map fun
    | .literal text => text
    | .field field => escape serde (values.get field))

/-- A value with every kind of character that has to be escaped. -/
def hostile : String := "a\"b\\c\nd\x07e"

/-- Parses a template and renders it once. -/
def Template.parse (serde : SerdeJson) (raw : String) : Except String Template :=
  match parts raw with
  | .error why => .error why
  | .ok template =>
    let sample := Template.render serde template
      ⟨hostile, hostile, hostile, hostile, hostile, hostile, hostile, hostile⟩
    if serde.fromStr sample then .ok template
    else .error ("the notification template does not render as JSON. The body is JSON and every " ++
      "substituted value is escaped as a JSON string, so each placeholder has to sit inside one -- " ++
      "`\x7b\"text\":\"%MESSAGE%\"\x7d`, not `\x7b\"text\":%MESSAGE%\x7d`")

end Kerbridge.Notify

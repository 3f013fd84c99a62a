import Kerbridge.Ldif
import Kerbridge.Pieces

/-!
# The name service switch of a domain controller

Taking one source out of the accounts' lines of a switch file, as provisioning does it,
and the check that asks whether it is there. Beside them stands how the C library reads
the file: a database, its sources, and in brackets behind a source the actions that
belong to it.
-/

namespace Kerbridge.NameSwitch

open UnicodeText Pieces

/-- The source that has to go. -/
def winbind : List Char := "winbind".toList

/-- `str::split_whitespace`. -/
abbrev words (cs : List Char) : List (List Char) := wordsBy isWhitespace cs

/-- A line without its end. -/
def body (line : List Char) : List Char := line.rdropWhile (· == '\n')

/-- What a line says before its comment. -/
def code (line : List Char) : List Char := (body line).takeWhile (· != '#')

/-- The comment of a line, to the line's end. -/
def comment (line : List Char) : List Char := (body line).dropWhile (· != '#')

/-- Whether a line is taken to list sources of accounts. -/
def isSourceLine (code : List Char) : Bool :=
  "passwd:".toList.isPrefixOf code || "group:".toList.isPrefixOf code

/-- Where the text behind the key begins. -/
def keyEnd (code : List Char) : ℕ := (code.findIdx? (· == ':')).getD 0 + 1

/-- The text behind the key, without the source. The gap in front stays. -/
def keptText (rest : List Char) : List Char :=
  rest.takeWhile isWhitespace ++ [' '].intercalate ((words rest).filter (· != winbind))

/-- One line, with the source dropped. -/
def rewriteLine (line : List Char) : List Char :=
  if !isSourceLine (code line) || !(words (code line)).any (· == winbind) then line
  else
    let (key, rest) := (code line).splitAt (keyEnd (code line))
    let out := key ++ keptText rest
    let out := if comment line ≠ [] then out ++ "  ".toList ++ comment line else out
    if line.getLast? = some '\n' then out ++ ['\n'] else out

/-- The lines the check below finds, with that one source dropped. -/
def withoutWinbind (text : String) : String :=
  String.ofList ((splitInclusive '\n' text.toList).flatMap rewriteLine)

/-- `str::strip_prefix`. -/
def stripKey (key : String) (line : List Char) : Option (List Char) :=
  if key.toList.isPrefixOf line then some (line.drop key.toList.length) else none

/-- The text behind the key of a line that lists sources of accounts. -/
def sourcesText (line : List Char) : Option (List Char) :=
  (stripKey "passwd:" line).or (stripKey "group:" line)

/-- Whether any `passwd:` or `group:` line lists the source, a trailing comment aside. -/
def nsswitchNamesWinbind (text : String) : Bool :=
  (Ldif.lines text.toList).any fun line =>
    match sourcesText (line.takeWhile (· != '#')) with
    | none => false
    | some rest => (words rest).any (· == winbind)

/-- The file after provisioning has looked at it, if there is one. -/
def takeWinbindOut (file : Option String) : Option String :=
  file.map fun text => if nsswitchNamesWinbind text then withoutWinbind text else text

/-- White space in the C library's own locale. -/
def isBlank (c : Char) : Bool := c == ' ' || (decide (9 ≤ c.toNat) && decide (c.toNat ≤ 13))

/-- What the C library reads behind the colon. -/
inductive Token where
  /-- A source. -/
  | source (name : List Char)
  /-- An opening bracket: what is in it belongs to the source in front. -/
  | opened
  /-- Text in brackets. -/
  | action (text : List Char)
  /-- A closing bracket. -/
  | closed
  deriving DecidableEq

/-- The token of the text read so far, if there is any. -/
def flush (inside : Bool) (text : List Char) : List Token :=
  if text = [] then [] else if inside then [.action text] else [.source text]

/-- The tokens of a text, from a position in or out of brackets with some text read. Blanks
end a token; outside an opening bracket does, and inside a closing one. -/
def reading (inside : Bool) (text : List Char) : List Char → List Token
  | [] => flush inside text
  | c :: cs =>
    if isBlank c then flush inside text ++ reading inside [] cs
    else if inside = false ∧ c = '[' then flush inside text ++ .opened :: reading true [] cs
    else if inside = true ∧ c = ']' then flush inside text ++ .closed :: reading false [] cs
    else reading inside (text ++ [c]) cs

/-- Whether a text ends in brackets. -/
def inBrackets (inside : Bool) (cs : List Char) : Bool :=
  cs.foldl (fun inside c => if inside then c != ']' else c == '[') inside

/-- The tokens behind the colon. -/
def tokens (rest : List Char) : List Token := reading false [] rest

/-- Whether a token goes: the source itself does, and what follows a source goes with it. -/
def dropped (dropping : Bool) : Token → Bool
  | .source name => name == winbind
  | _ => dropping

/-- Tokens without the source and without what belongs to it. -/
def without (dropping : Bool) : List Token → List Token
  | [] => []
  | t :: ts =>
    if dropped dropping t then without true ts else t :: without false ts

/-- The database a line is about, which blanks may precede, and the text behind its colon. -/
def entry (line : List Char) : Option (List Char × List Char) :=
  match ((code line).dropWhile isBlank).dropWhile (· != ':') with
  | [] => none
  | _ :: rest => some (((code line).dropWhile isBlank).takeWhile (· != ':'), rest)

/-- The databases of accounts. -/
def ofAccounts (database : List Char) : Prop :=
  database = "passwd".toList ∨ database = "group".toList

/-- A line of the accounts' databases lists the source. -/
def Lists (line : List Char) : Prop :=
  ∃ database rest, entry line = some (database, rest) ∧ ofAccounts database ∧
    .source winbind ∈ tokens rest

/-- What is to become of a line: one that lists the source keeps its database, its comment
and its end, and the other sources each with its own actions; any other line stays. -/
structure TakenOut (line result : List Char) : Prop where
  listed : Lists line → ∃ database rest left, entry line = some (database, rest) ∧
    entry result = some (database, left) ∧ tokens left = without false (tokens rest) ∧
    comment result = comment line ∧
    (result.getLast? = some '\n' ↔ line.getLast? = some '\n')
  other : ¬ Lists line → result = line

/-- What is to become of a file. -/
structure OutOf (text result : String) : Prop where
  lines : List.Forall₂ TakenOut (splitInclusive '\n' text.toList)
    (splitInclusive '\n' result.toList)
  none : ∀ line ∈ splitInclusive '\n' result.toList, ¬ Lists line
  unnamed : nsswitchNamesWinbind result = false
  again : withoutWinbind result = result

/-- The source can be taken from words one by one: each time it stands outside brackets and
no bracket opens behind it, and no other word is read as it in part. -/
def Apart (inside : Bool) : List (List Char) → Prop
  | [] => True
  | w :: ws =>
    (if w = winbind then inside = false ∧ ∀ v ∈ ws.head?, v.head? ≠ some '['
      else .source winbind ∉ reading inside [] w) ∧
    Apart (inBrackets inside w) ws

/-- The white space behind the gap is blanks, and the source is not joined to the gap by any
other white space. -/
structure Blanked (rest : List Char) : Prop where
  behind : ∀ c ∈ rest.dropWhile isWhitespace, isWhitespace c = true → isBlank c = true
  front : (words rest).head? = some winbind →
    ∀ c ∈ (rest.takeWhile isWhitespace).getLast?, isBlank c = true

/-- The lines on which dropping words does what it should. -/
def Droppable (line : List Char) : Prop :=
  ∀ database rest, entry line = some (database, rest) → ofAccounts database →
    (.source winbind ∈ tokens rest → (∀ c ∈ line.head?, isBlank c = false) ∧
      winbind ∈ words (code line) ∧ Blanked rest ∧ Apart false (wordsBy isBlank rest)) ∧
    (.source winbind ∉ tokens rest → (∀ c ∈ line.head?, isBlank c = false) →
      winbind ∉ words rest)

example : withoutWinbind "passwd:  files winbind # x\nshadow: winbind\n" =
    "passwd:  files  # x\nshadow: winbind\n" := by decide

end Kerbridge.NameSwitch

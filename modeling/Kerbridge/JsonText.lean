import Mathlib.Data.List.Basic
import Mathlib.Tactic.IntervalCases

/-!
# JSON documents, read symbol by symbol

A document is read by a machine with a stack of the containers that are open. A text
may have holes, which stand for characters of a string that are not known yet: the
machine reads a hole within a string, and nowhere else. Reading then commutes with
filling the holes with escaped texts.
-/

namespace Kerbridge.JsonText

/-- A character of a text, or a hole in it. -/
inductive Symbol (H : Type) where
  | char (c : Char)
  | hole (h : H)
  deriving DecidableEq

/-- A document. Objects keep their members in the order of the text. -/
inductive Json (H : Type) where
  | null
  | bool (b : Bool)
  | number (text : List Char)
  | string (text : List (Symbol H))
  | array (items : List (Json H))
  | object (members : List (List (Symbol H) × Json H))

/-- A text without holes. -/
def plain {H : Type} (text : List Char) : List (Symbol H) := text.map Symbol.char

/-- White space between the tokens of a document. -/
def isSpace (c : Char) : Bool := c = ' ' || c = '\t' || c = '\n' || c = '\r'

/-- The value of a hexadecimal digit. -/
def hexDigit (c : Char) : Option ℕ :=
  if '0' ≤ c ∧ c ≤ '9' then some (c.toNat - 48)
  else if 'a' ≤ c ∧ c ≤ 'f' then some (c.toNat - 87)
  else if 'A' ≤ c ∧ c ≤ 'F' then some (c.toNat - 55)
  else none

/-- The character that a backslash and a letter stand for. -/
def shortEscape : Char → Option Char
  | '"' => some '"'
  | '\\' => some '\\'
  | '/' => some '/'
  | 'b' => some (Char.ofNat 8)
  | 'f' => some (Char.ofNat 12)
  | 'n' => some '\n'
  | 'r' => some '\r'
  | 't' => some '\t'
  | _ => none

/-- Where a string is being read. -/
inductive Quoted where
  | plain
  | backslash
  /-- Some digits of a code, and the leading surrogate before it. -/
  | code (leading : Option ℕ) (digits value : ℕ)
  /-- A leading surrogate, and whether the next backslash was read. -/
  | trailing (leading : ℕ) (slash : Bool)

/-- What a character of a string comes to. -/
inductive Taken where
  | closing
  /-- Perhaps a character of the string, and where it is read on. -/
  | next (pushed : Option Char) (quoted : Quoted)

/-- What a whole code comes to. A surrogate stands only in a pair. -/
def codeTaken (leading : Option ℕ) (value : ℕ) : Option Taken :=
  match leading with
  | none =>
    if 0xD800 ≤ value ∧ value < 0xDC00 then some (.next none (.trailing value false))
    else if 0xDC00 ≤ value ∧ value < 0xE000 then none
    else some (.next (some (Char.ofNat value)) .plain)
  | some high =>
    if 0xDC00 ≤ value ∧ value < 0xE000 then
      some (.next (some (Char.ofNat (0x10000 + (high - 0xD800) * 0x400 + (value - 0xDC00)))) .plain)
    else none

/-- A character of a string is read. -/
def Quoted.take : Quoted → Char → Option Taken
  | .plain, c =>
    if c = '"' then some .closing
    else if c = '\\' then some (.next none .backslash)
    else if c.toNat < 0x20 then none
    else some (.next (some c) .plain)
  | .backslash, c =>
    if c = 'u' then some (.next none (.code none 0 0))
    else (shortEscape c).map fun meant => .next (some meant) .plain
  | .code leading digits value, c =>
    (hexDigit c).bind fun d =>
      if digits < 3 then some (.next none (.code leading (digits + 1) (16 * value + d)))
      else codeTaken leading (16 * value + d)
  | .trailing leading false, c =>
    if c = '\\' then some (.next none (.trailing leading true)) else none
  | .trailing leading true, c =>
    if c = 'u' then some (.next none (.code (some leading) 0 0)) else none

/-- Where a number is being read. -/
inductive Numeral where
  | minus
  | zero
  | digits
  | point
  | fraction
  | exponent
  | sign
  | power
  deriving DecidableEq

/-- A character of a number is read. -/
def Numeral.take : Numeral → Char → Option Numeral
  | .minus, c => if c = '0' then some .zero else if c.isDigit then some .digits else none
  | .zero, c =>
    if c = '.' then some .point else if c = 'e' ∨ c = 'E' then some .exponent else none
  | .digits, c =>
    if c.isDigit then some .digits
    else if c = '.' then some .point
    else if c = 'e' ∨ c = 'E' then some .exponent
    else none
  | .point, c => if c.isDigit then some .fraction else none
  | .fraction, c =>
    if c.isDigit then some .fraction else if c = 'e' ∨ c = 'E' then some .exponent else none
  | .exponent, c =>
    if c = '+' ∨ c = '-' then some .sign else if c.isDigit then some .power else none
  | .sign, c => if c.isDigit then some .power else none
  | .power, c => if c.isDigit then some .power else none

/-- Whether a number may end. -/
def Numeral.ends : Numeral → Bool
  | .zero | .digits | .fraction | .power => true
  | .minus | .point | .exponent | .sign => false

/-- A value that is written as a word. -/
inductive Word where
  | yes
  | no
  | null

/-- How a word is spelled. -/
def Word.spelling : Word → List Char
  | .yes => ['t', 'r', 'u', 'e']
  | .no => ['f', 'a', 'l', 's', 'e']
  | .null => ['n', 'u', 'l', 'l']

section Machine

variable {H : Type}

/-- The value a word stands for. -/
def Word.value : Word → Json H
  | .yes => .bool true
  | .no => .bool false
  | .null => .null

/-- What a string that is being read is: a value, or the name of the next member. -/
inductive Place (H : Type) where
  | value
  | key (members : List (List (Symbol H) × Json H))

/-- An open container, and what it holds so far. -/
inductive Frame (H : Type) where
  | array (items : List (Json H))
  | object (members : List (List (Symbol H) × Json H)) (key : List (Symbol H))

/-- What is read next. -/
inductive Mode (H : Type) where
  | value
  | firstItem
  | items (items : List (Json H))
  | firstKey
  | nextKey (members : List (List (Symbol H) × Json H))
  | colon (members : List (List (Symbol H) × Json H)) (key : List (Symbol H))
  | members (members : List (List (Symbol H) × Json H))
  | string (place : Place H) (text : List (Symbol H)) (quoted : Quoted)
  | number (text : List Char) (numeral : Numeral)
  | word (word : Word) (read : ℕ)
  | done (document : Json H)

/-- The machine: what is read next, within which containers. -/
structure State (H : Type) where
  mode : Mode H
  stack : List (Frame H)

/-- A whole value, put into the container around it. -/
def complete (value : Json H) : List (Frame H) → State H
  | [] => ⟨.done value, []⟩
  | .array items :: stack => ⟨.items (items ++ [value]), stack⟩
  | .object members key :: stack => ⟨.members (members ++ [(key, value)]), stack⟩

/-- The first character of a value. -/
def opening (stack : List (Frame H)) (c : Char) : Option (State H) :=
  if c = '"' then some ⟨.string .value [] .plain, stack⟩
  else if c = '[' then some ⟨.firstItem, stack⟩
  else if c = '{' then some ⟨.firstKey, stack⟩
  else if c = 't' then some ⟨.word .yes 1, stack⟩
  else if c = 'f' then some ⟨.word .no 1, stack⟩
  else if c = 'n' then some ⟨.word .null 1, stack⟩
  else if c = '-' then some ⟨.number [c] .minus, stack⟩
  else if c = '0' then some ⟨.number [c] .zero, stack⟩
  else if c.isDigit then some ⟨.number [c] .digits, stack⟩
  else none

/-- A string ends. -/
def closed (place : Place H) (text : List (Symbol H)) (stack : List (Frame H)) : State H :=
  match place with
  | .value => complete (.string text) stack
  | .key members => ⟨.colon members text, stack⟩

/-- A character between tokens, or the first one of a token. -/
def between (mode : Mode H) (stack : List (Frame H)) (c : Char) : Option (State H) :=
  if isSpace c then some ⟨mode, stack⟩
  else
    match mode with
    | .value => opening stack c
    | .firstItem =>
      if c = ']' then some (complete (.array []) stack) else opening (.array [] :: stack) c
    | .items items =>
      if c = ',' then some ⟨.value, .array items :: stack⟩
      else if c = ']' then some (complete (.array items) stack)
      else none
    | .firstKey =>
      if c = '}' then some (complete (.object []) stack)
      else if c = '"' then some ⟨.string (.key []) [] .plain, stack⟩
      else none
    | .nextKey members =>
      if c = '"' then some ⟨.string (.key members) [] .plain, stack⟩ else none
    | .colon members key =>
      if c = ':' then some ⟨.value, .object members key :: stack⟩ else none
    | .members members =>
      if c = ',' then some ⟨.nextKey members, stack⟩
      else if c = '}' then some (complete (.object members) stack)
      else none
    | _ => none

/-- A character of a string, where the machine reads on. -/
def Taken.state (place : Place H) (text : List (Symbol H)) (stack : List (Frame H)) :
    Taken → State H
  | .closing => closed place text stack
  | .next none quoted => ⟨.string place text quoted, stack⟩
  | .next (some c) quoted => ⟨.string place (text ++ [.char c]) quoted, stack⟩

/-- A character is read. -/
def readChar (q : State H) (c : Char) : Option (State H) :=
  match q.mode with
  | .string place text quoted => (quoted.take c).map (Taken.state place text q.stack)
  | .number text numeral =>
    match numeral.take c with
    | some numeral => some ⟨.number (text ++ [c]) numeral, q.stack⟩
    | none =>
      if numeral.ends then
        let after := complete (.number text) q.stack
        between after.mode after.stack c
      else none
  | .word word read =>
    if word.spelling[read]? = some c then
      some (if read + 1 = word.spelling.length then complete word.value q.stack
        else ⟨.word word (read + 1), q.stack⟩)
    else none
  | mode => between mode q.stack c

/-- A hole is read, within a string and outside of its escapes. -/
def readHole (q : State H) (h : H) : Option (State H) :=
  match q.mode with
  | .string place text .plain => some ⟨.string place (text ++ [.hole h]) .plain, q.stack⟩
  | _ => none

/-- A symbol is read. -/
def step (q : State H) : Symbol H → Option (State H)
  | .char c => readChar q c
  | .hole h => readHole q h

/-- A text is read from a state on. -/
def run (q : State H) (text : List (Symbol H)) : Option (State H) := text.foldlM step q

/-- The document that is read, if it is whole. -/
def finish (q : State H) : Option (Json H) :=
  match q.mode with
  | .done document => some document
  | .number text numeral => if numeral.ends && q.stack.isEmpty then some (.number text) else none
  | _ => none

/-- The document a text is. -/
def read (text : List (Symbol H)) : Option (Json H) := (run ⟨.value, []⟩ text).bind finish

/-- Nothing is read. -/
theorem run_nil (q : State H) : run q [] = some q := rfl

/-- A symbol is read, and then the others. -/
theorem run_cons (q : State H) (symbol : Symbol H) (rest : List (Symbol H)) :
    run q (symbol :: rest) = (step q symbol).bind fun q => run q rest := rfl

/-- Reading goes on from where a text was read up to. -/
theorem run_append (q : State H) (a b : List (Symbol H)) :
    run q (a ++ b) = (run q a).bind fun q => run q b :=
  List.foldlM_append

end Machine

section Fill

variable {H : Type}

/-- A text with its holes filled. -/
def fill (f : H → List Char) (text : List (Symbol H)) : List (Symbol Empty) :=
  text.flatMap fun
    | .char c => [.char c]
    | .hole h => plain (f h)

mutual

/-- A document with the holes of its strings filled. -/
def Json.fill (f : H → List Char) : Json H → Json Empty
  | .null => .null
  | .bool b => .bool b
  | .number text => .number text
  | .string text => .string (JsonText.fill f text)
  | .array items => .array (fillItems f items)
  | .object members => .object (fillMembers f members)

/-- Items with their holes filled. -/
def fillItems (f : H → List Char) : List (Json H) → List (Json Empty)
  | [] => []
  | item :: rest => item.fill f :: fillItems f rest

/-- Members with the holes of their names and of their values filled. -/
def fillMembers (f : H → List Char) :
    List (List (Symbol H) × Json H) → List (List (Symbol Empty) × Json Empty)
  | [] => []
  | (key, value) :: rest => (JsonText.fill f key, value.fill f) :: fillMembers f rest

end

/-- An open container with its holes filled. -/
def Frame.fill (f : H → List Char) : Frame H → Frame Empty
  | .array items => .array (fillItems f items)
  | .object members key => .object (fillMembers f members) (JsonText.fill f key)

/-- A place with its holes filled. -/
def Place.fill (f : H → List Char) : Place H → Place Empty
  | .value => .value
  | .key members => .key (fillMembers f members)

/-- What is read next, with its holes filled. -/
def Mode.fill (f : H → List Char) : Mode H → Mode Empty
  | .value => .value
  | .firstItem => .firstItem
  | .items found => .items (fillItems f found)
  | .firstKey => .firstKey
  | .nextKey found => .nextKey (fillMembers f found)
  | .colon found key => .colon (fillMembers f found) (JsonText.fill f key)
  | .members found => .members (fillMembers f found)
  | .string place text quoted => .string (place.fill f) (JsonText.fill f text) quoted
  | .number text numeral => .number text numeral
  | .word spelled read => .word spelled read
  | .done document => .done (document.fill f)

/-- The machine with the holes of what it has read filled. -/
def State.fill (f : H → List Char) (q : State H) : State Empty :=
  ⟨q.mode.fill f, q.stack.map (Frame.fill f)⟩

variable (f : H → List Char)

@[simp] theorem fill_nil : fill f [] = [] := rfl

@[simp] theorem fill_char (c : Char) (text : List (Symbol H)) :
    fill f (.char c :: text) = .char c :: fill f text := rfl

@[simp] theorem fill_hole (h : H) (text : List (Symbol H)) :
    fill f (.hole h :: text) = plain (f h) ++ fill f text := rfl

theorem fill_append (a b : List (Symbol H)) : fill f (a ++ b) = fill f a ++ fill f b :=
  List.flatMap_append

/-- One more item is filled like the others. -/
theorem fillItems_concat (items : List (Json H)) (value : Json H) :
    fillItems f (items ++ [value]) = fillItems f items ++ [value.fill f] := by
  induction items with
  | nil => rfl
  | cons item rest ih => rw [List.cons_append, fillItems, ih, fillItems, List.cons_append]

/-- One more member is filled like the others. -/
theorem fillMembers_concat (members : List (List (Symbol H) × Json H)) (key : List (Symbol H))
    (value : Json H) :
    fillMembers f (members ++ [(key, value)]) = fillMembers f members ++ [(fill f key, value.fill f)] := by
  induction members with
  | nil => rfl
  | cons member rest ih =>
    obtain ⟨name, held⟩ := member
    rw [List.cons_append, fillMembers, ih, fillMembers, List.cons_append]

/-- A value that is whole is put into the same container, whatever fills the holes. -/
theorem complete_fill (value : Json H) (stack : List (Frame H)) :
    complete (value.fill f) (stack.map (Frame.fill f)) = (complete value stack).fill f := by
  cases stack with
  | nil => rfl
  | cons frame stack =>
    cases frame with
    | array items => simp only [complete, Frame.fill, State.fill, Mode.fill, fillItems_concat, List.map_cons]
    | object members key =>
      simp only [complete, Frame.fill, State.fill, Mode.fill, fillMembers_concat, List.map_cons]

/-- The first character of a value is read alike, whatever fills the holes. -/
theorem opening_fill (stack : List (Frame H)) (c : Char) :
    opening (stack.map (Frame.fill f)) c = (opening stack c).map (State.fill f) := by
  unfold opening
  simp only [apply_ite (Option.map (State.fill f)), Option.map_some, Option.map_none, State.fill,
    Mode.fill, Place.fill, fill_nil]

/-- A character between tokens is read alike, whatever fills the holes. -/
theorem between_fill (mode : Mode H) (stack : List (Frame H)) (c : Char) :
    between (mode.fill f) (stack.map (Frame.fill f)) c =
      (between mode stack c).map (State.fill f) := by
  unfold between
  by_cases hspace : isSpace c = true
  · simp [hspace, State.fill]
  · simp only [hspace, if_false, Bool.false_eq_true]
    cases mode with
    | value => exact opening_fill f stack c
    | firstItem =>
      have hopening := opening_fill f (.array [] :: stack) c
      have hcomplete := complete_fill f (.array []) stack
      rw [apply_ite (Option.map (State.fill f)), Option.map_some, ← hopening, ← hcomplete]
      rfl
    | items found =>
      have hcomplete := complete_fill f (.array found) stack
      rw [apply_ite (Option.map (State.fill f)), apply_ite (Option.map (State.fill f)),
        Option.map_some, Option.map_some, ← hcomplete]
      rfl
    | firstKey =>
      have hcomplete := complete_fill f (.object []) stack
      rw [apply_ite (Option.map (State.fill f)), apply_ite (Option.map (State.fill f)),
        Option.map_some, Option.map_some, ← hcomplete]
      rfl
    | nextKey found =>
      rw [apply_ite (Option.map (State.fill f))]
      rfl
    | colon found key =>
      rw [apply_ite (Option.map (State.fill f))]
      rfl
    | members found =>
      have hcomplete := complete_fill f (.object found) stack
      rw [apply_ite (Option.map (State.fill f)), apply_ite (Option.map (State.fill f)),
        Option.map_some, Option.map_some, ← hcomplete]
      rfl
    | string place text quoted => rfl
    | number text numeral => rfl
    | word word read => rfl
    | done document => rfl

/-- A character of a string is read alike, whatever fills the holes. -/
theorem Taken.state_fill (place : Place H) (text : List (Symbol H)) (stack : List (Frame H))
    (taken : Taken) : taken.state (place.fill f) (JsonText.fill f text) (stack.map (Frame.fill f)) =
      (taken.state place text stack).fill f := by
  cases taken with
  | closing =>
    cases place with
    | value => exact complete_fill f (.string text) stack
    | key members => rfl
  | next pushed quoted =>
    cases pushed with
    | none => rfl
    | some c => simp only [Taken.state, State.fill, Mode.fill, fill_append, fill_char, fill_nil]

/-- **A character is read alike**, whatever fills the holes before it. -/
theorem readChar_fill (q : State H) (c : Char) :
    readChar (q.fill f) c = (readChar q c).map (State.fill f) := by
  obtain ⟨mode, stack⟩ := q
  unfold readChar
  cases mode with
  | string place text quoted =>
    dsimp only [State.fill, Mode.fill]
    rw [Option.map_map]
    congr 1
    funext taken
    exact Taken.state_fill f place text stack taken
  | number text numeral =>
    dsimp only [State.fill, Mode.fill]
    cases numeral.take c with
    | some numeral => rfl
    | none =>
      dsimp only
      have hcomplete : complete (.number text) (stack.map (Frame.fill f)) =
          (complete (.number text) stack).fill f := complete_fill f (.number text) stack
      rw [apply_ite (Option.map _), hcomplete]
      congr 1
      exact between_fill f _ _ c
  | word word read =>
    dsimp only [State.fill, Mode.fill]
    have hcomplete : complete word.value (stack.map (Frame.fill f)) =
        (complete word.value stack).fill f := by
      rw [← complete_fill]
      cases word with
      | yes => rfl
      | no => rfl
      | null => rfl
    rw [apply_ite (Option.map _), hcomplete, Option.map_some, apply_ite (State.fill f)]
    rfl
  | value => exact between_fill f .value stack c
  | firstItem => exact between_fill f .firstItem stack c
  | items found => exact between_fill f (.items found) stack c
  | firstKey => exact between_fill f .firstKey stack c
  | nextKey found => exact between_fill f (.nextKey found) stack c
  | colon found key => exact between_fill f (.colon found key) stack c
  | members found => exact between_fill f (.members found) stack c
  | done document => exact between_fill f (.done document) stack c

/-- A character that is read with the holes filled is read with the holes. -/
theorem run_char_fill {q : State H} {p : State Empty} {c : Char} {rest : List (Symbol Empty)}
    (h : run (q.fill f) (.char c :: rest) = some p) :
    ∃ q', readChar q c = some q' ∧ run (q'.fill f) rest = some p := by
  rw [run_cons, step, readChar_fill] at h
  obtain ⟨filled, hread, hrest⟩ := Option.bind_eq_some_iff.mp h
  obtain ⟨q', hq', rfl⟩ := Option.map_eq_some_iff.mp hread
  exact ⟨q', hq', hrest⟩

/-- The document that is read is filled with the machine. -/
theorem finish_fill (q : State H) : finish (q.fill f) = (finish q).map (Json.fill f) := by
  obtain ⟨mode, stack⟩ := q
  unfold finish State.fill
  cases mode with
  | number text numeral =>
    dsimp only [Mode.fill]
    rw [apply_ite (Option.map _), List.isEmpty_map]
    rfl
  | _ => rfl

/-- A character as it stands in a string. -/
def escapeChar (c : Char) : List Char :=
  if c = '"' then ['\\', '"']
  else if c = '\\' then ['\\', '\\']
  else if c.toNat < 0x20 then
    match c.toNat with
    | 8 => ['\\', 'b']
    | 9 => ['\\', 't']
    | 10 => ['\\', 'n']
    | 12 => ['\\', 'f']
    | 13 => ['\\', 'r']
    | n => ['\\', 'u', '0', '0', Nat.digitChar (n / 16), Nat.digitChar (n % 16)]
  else [c]

/-- A text as it stands in a string. -/
def escape (text : List Char) : List Char := text.flatMap escapeChar

/-- A character is read back from its escape. -/
theorem run_escapeChar {place : Place H} {text : List (Symbol H)} {stack : List (Frame H)}
    (c : Char) : run ⟨.string place text .plain, stack⟩ (plain (escapeChar c)) =
      some ⟨.string place (text ++ [.char c]) .plain, stack⟩ := by
  unfold escapeChar
  by_cases hquote : c = '"'
  · subst hquote
    rfl
  by_cases hslash : c = '\\'
  · subst hslash
    rfl
  rw [if_neg hquote, if_neg hslash]
  by_cases hcontrol : c.toNat < 0x20
  · rw [if_pos hcontrol]
    generalize hn : c.toNat = n at hcontrol
    have hc : c = Char.ofNat n := by rw [← hn, Char.ofNat_toNat]
    subst hc
    clear hn hquote hslash
    interval_cases n <;> rfl
  · rw [if_neg hcontrol]
    have htake : Quoted.plain.take c = some (.next (some c) .plain) := by
      unfold Quoted.take
      dsimp only
      rw [if_neg hquote, if_neg hslash, if_neg hcontrol]
    have hread : readChar ⟨.string place text .plain, stack⟩ c =
        some ⟨.string place (text ++ [.char c]) .plain, stack⟩ := by
      unfold readChar
      dsimp only
      rw [htake]
      rfl
    rw [plain, List.map_cons, List.map_nil, run_cons, step, hread]
    rfl

/-- A text is read back from its escape. -/
theorem run_escape {place : Place H} {stack : List (Frame H)} (value : List Char) :
    ∀ text : List (Symbol H), run ⟨.string place text .plain, stack⟩ (plain (escape value)) =
      some ⟨.string place (text ++ plain value) .plain, stack⟩ := by
  induction value with
  | nil =>
    intro text
    simp [escape, plain, run]
  | cons c rest ih =>
    intro text
    have hsplit : plain (escape (c :: rest)) =
        plain (H := H) (escapeChar c) ++ plain (escape rest) := by
      simp [escape, plain]
    rw [hsplit, run_append, run_escapeChar, Option.bind_some, ih, List.append_assoc]
    rfl

/-- A hole is read within a string, outside of its escapes. -/
theorem readHole_eq_some {q q' : State H} {h : H} (hread : readHole q h = some q') :
    ∃ place text, q = ⟨.string place text .plain, q.stack⟩ ∧
      q' = ⟨.string place (text ++ [.hole h]) .plain, q.stack⟩ := by
  obtain ⟨mode, stack⟩ := q
  unfold readHole at hread
  split at hread
  · rename_i place text hmode
    dsimp only at hmode
    subst hmode
    exact ⟨place, text, rfl, (Option.some.inj hread).symm⟩
  · cases hread

/-- A hole that is read is read as well once it is filled. -/
theorem run_hole {q q' : State H} {h : H} (hread : readHole q h = some q') :
    run (q.fill f) (plain (escape (f h))) = some (q'.fill f) := by
  obtain ⟨place, text, hq, rfl⟩ := readHole_eq_some hread
  rw [hq]
  unfold State.fill
  dsimp only [Mode.fill]
  rw [run_escape, fill_append, fill_hole, fill_nil, List.append_nil]

/-- **A text with holes reads on like every text that fills them**. -/
theorem run_fill {text : List (Symbol H)} : ∀ {q q' : State H}, run q text = some q' →
    run (q.fill f) (fill (fun h => escape (f h)) text) = some (q'.fill f) := by
  induction text with
  | nil =>
    intro q q' h
    cases h
    rfl
  | cons symbol rest ih =>
    intro q q' h
    rw [run_cons] at h
    obtain ⟨next, hstep, hrest⟩ := Option.bind_eq_some_iff.mp h
    cases symbol with
    | char c =>
      change readChar q c = some next at hstep
      rw [fill_char, run_cons, step, readChar_fill, hstep]
      exact ih hrest
    | hole hole =>
      rw [fill_hole, run_append, run_hole f hstep]
      exact ih hrest

/-- **A document with holes stays the same document**: with the holes filled by escaped texts, a
text reads as the document with the texts in the places of the holes. -/
theorem read_fill {text : List (Symbol H)} {document : Json H} (h : read text = some document) :
    read (fill (fun h => escape (f h)) text) = some (document.fill f) := by
  unfold read at h ⊢
  obtain ⟨q, hrun, hfinish⟩ := Option.bind_eq_some_iff.mp h
  have hfilled : run ⟨.value, []⟩ (fill (fun h => escape (f h)) text) = some (q.fill f) :=
    run_fill f hrun
  rw [hfilled, Option.bind_some, finish_fill, hfinish]
  rfl

end Fill

section Depth

/-- How much of an escape is read: a backslash, its letter, and digits of a code. -/
def Quoted.depth : Quoted → ℕ
  | .plain => 0
  | .backslash => 1
  | .code _ digits _ => digits + 2
  | .trailing _ false => 0
  | .trailing _ true => 1

/-- How much of an escape a text ends in, with one more character. -/
def unfinished (depth : ℕ) (c : Char) : ℕ :=
  if depth = 0 then if c = '\\' then 1 else 0
  else if depth = 1 then if c = 'u' then 2 else 0
  else if depth < 5 then depth + 1
  else 0

/-- Outside of escapes a backslash opens one. -/
theorem unfinished_zero (c : Char) : unfinished 0 c = if c = '\\' then 1 else 0 := rfl

/-- Behind a backslash the letter of a code opens it. -/
theorem unfinished_one (c : Char) : unfinished 1 c = if c = 'u' then 2 else 0 := rfl

/-- A code has four digits. -/
theorem unfinished_code (digits : ℕ) (c : Char) :
    unfinished (digits + 2) c = if digits < 3 then digits + 3 else 0 := by
  unfold unfinished
  rw [if_neg (by omega), if_neg (by omega)]
  by_cases hmore : digits < 3
  · rw [if_pos hmore, if_pos (by omega)]
  · rw [if_neg hmore, if_neg (by omega)]

variable {H : Type}

/-- Whether a hole stands behind a code that lacks its last digit. -/
def cutsFrom : ℕ → List (Symbol H) → Bool
  | _, [] => false
  | depth, .char c :: rest => cutsFrom (unfinished depth c) rest
  | depth, .hole _ :: rest => decide (5 ≤ depth) || cutsFrom 0 rest

/-- How much of an escape the machine has read. -/
def State.depth (q : State H) : ℕ :=
  match q.mode with
  | .string _ _ quoted => quoted.depth
  | _ => 0

/-- A value that is whole is outside of every string. -/
theorem complete_depth (value : Json H) (stack : List (Frame H)) :
    (complete value stack).depth = 0 := by
  cases stack with
  | nil => rfl
  | cons frame stack =>
    cases frame with
    | array items => rfl
    | object members key => rfl

/-- The first character of a value is no backslash, and opens a string at its beginning. -/
theorem opening_depth {stack : List (Frame H)} {c : Char} {q : State H}
    (h : opening stack c = some q) : c ≠ '\\' ∧ q.depth = 0 := by
  unfold opening at h
  constructor
  · rintro rfl
    cases h
  · split_ifs at h
    all_goals
      cases h
      rfl

/-- A character between tokens is no backslash, and leaves no escape open. -/
theorem between_depth {mode : Mode H} {stack : List (Frame H)} {c : Char} {q : State H}
    (hmode : (State.mk mode stack).depth = 0) (h : between mode stack c = some q) :
    c ≠ '\\' ∧ q.depth = 0 := by
  unfold between at h
  by_cases hspace : isSpace c = true
  · rw [if_pos hspace] at h
    cases h
    refine ⟨?_, hmode⟩
    rintro rfl
    cases hspace
  · rw [if_neg hspace] at h
    cases mode with
    | value => exact opening_depth h
    | firstItem =>
      dsimp only at h
      split_ifs at h with hclose
      · cases h
        exact ⟨by rw [hclose]; decide, complete_depth _ _⟩
      · exact opening_depth h
    | items found =>
      dsimp only at h
      split_ifs at h with hcomma hclose
      · cases h
        exact ⟨by rw [hcomma]; decide, rfl⟩
      · cases h
        exact ⟨by rw [hclose]; decide, complete_depth _ _⟩
    | firstKey =>
      dsimp only at h
      split_ifs at h with hclose hquote
      · cases h
        exact ⟨by rw [hclose]; decide, complete_depth _ _⟩
      · cases h
        exact ⟨by rw [hquote]; decide, rfl⟩
    | nextKey found =>
      dsimp only at h
      split_ifs at h with hquote
      cases h
      exact ⟨by rw [hquote]; decide, rfl⟩
    | colon found key =>
      dsimp only at h
      split_ifs at h with hcolon
      cases h
      exact ⟨by rw [hcolon]; decide, rfl⟩
    | members found =>
      dsimp only at h
      split_ifs at h with hcomma hclose
      · cases h
        exact ⟨by rw [hcomma]; decide, rfl⟩
      · cases h
        exact ⟨by rw [hclose]; decide, complete_depth _ _⟩
    | string place text quoted => cases h
    | number text numeral => cases h
    | word word read => cases h
    | done document => cases h

/-- A character of a string, where the machine reads on, leaves open what it leaves open there. -/
def Taken.depth : Taken → ℕ
  | .closing => 0
  | .next _ quoted => quoted.depth

theorem Taken.state_depth (place : Place H) (text : List (Symbol H)) (stack : List (Frame H))
    (taken : Taken) : (taken.state place text stack).depth = taken.depth := by
  cases taken with
  | closing =>
    cases place with
    | value => exact complete_depth _ stack
    | key members => rfl
  | next pushed quoted =>
    cases pushed with
    | none => rfl
    | some c => rfl

/-- A whole code leaves no escape open. -/
theorem codeTaken_depth {leading : Option ℕ} {value : ℕ} {taken : Taken}
    (h : codeTaken leading value = some taken) : taken.depth = 0 := by
  unfold codeTaken at h
  cases leading with
  | none =>
    dsimp only at h
    split_ifs at h
    · cases h
      rfl
    · cases h
      rfl
  | some high =>
    dsimp only at h
    split_ifs at h
    cases h
    rfl

/-- A character of a string leaves open what the characters say. -/
theorem Quoted.take_depth {quoted : Quoted} {c : Char} {taken : Taken}
    (h : quoted.take c = some taken) : taken.depth = unfinished quoted.depth c := by
  unfold Quoted.take at h
  cases quoted with
  | plain =>
    dsimp only at h
    rw [Quoted.depth, unfinished_zero]
    split_ifs at h with hquote hslash
    · cases h
      rw [if_neg (by rw [hquote]; decide)]
      rfl
    · cases h
      rw [if_pos hslash]
      rfl
    · cases h
      rw [if_neg hslash]
      rfl
  | backslash =>
    dsimp only at h
    rw [Quoted.depth, unfinished_one]
    split_ifs at h with hletter
    · cases h
      rw [if_pos hletter]
      rfl
    · obtain ⟨meant, _, rfl⟩ := Option.map_eq_some_iff.mp h
      rw [if_neg hletter]
      rfl
  | code leading digits value =>
    dsimp only at h
    obtain ⟨d, _, hdigit⟩ := Option.bind_eq_some_iff.mp h
    rw [Quoted.depth, unfinished_code]
    split_ifs at hdigit with hmore
    · cases hdigit
      rw [if_pos hmore]
      rfl
    · rw [if_neg hmore, codeTaken_depth hdigit]
  | trailing leading slash =>
    cases slash with
    | false =>
      dsimp only at h
      rw [Quoted.depth, unfinished_zero]
      split_ifs at h with hslash
      cases h
      rw [if_pos hslash]
      rfl
    | true =>
      dsimp only at h
      rw [Quoted.depth, unfinished_one]
      split_ifs at h with hletter
      cases h
      rw [if_pos hletter]
      rfl

/-- No word is spelled with a backslash. -/
theorem Word.spelling_ne (word : Word) {i : ℕ} {c : Char} (h : word.spelling[i]? = some c) :
    c ≠ '\\' := by
  have hmem := List.mem_of_getElem? h
  rintro rfl
  revert hmem
  cases word with
  | yes => decide
  | no => decide
  | null => decide

/-- No number goes on with a backslash. -/
theorem Numeral.take_ne {numeral numeral' : Numeral} {c : Char}
    (h : numeral.take c = some numeral') : c ≠ '\\' := by
  rintro rfl
  revert h
  cases numeral with
  | _ => exact nofun

/-- The machine is within a string. -/
def State.Inside (q : State H) : Prop :=
  ∃ place text quoted, q.mode = .string place text quoted

/-- A value that is whole leaves the machine outside of strings. -/
theorem complete_outside (value : Json H) (stack : List (Frame H)) :
    ¬(complete value stack).Inside := by
  rintro ⟨place, text, quoted, hmode⟩
  cases stack with
  | nil => cases hmode
  | cons frame stack =>
    cases frame with
    | array items => cases hmode
    | object members key => cases hmode

/-- Outside of strings no backslash is read, and no escape is open. -/
theorem readChar_outside {q q' : State H} {c : Char} (houtside : ¬q.Inside)
    (h : readChar q c = some q') : q.depth = 0 ∧ c ≠ '\\' ∧ q'.depth = 0 := by
  obtain ⟨mode, stack⟩ := q
  unfold readChar at h
  cases mode with
  | string place text quoted => exact absurd ⟨place, text, quoted, rfl⟩ houtside
  | number text numeral =>
    dsimp only at h
    cases htake : numeral.take c with
    | some numeral' =>
      rw [htake] at h
      cases h
      exact ⟨rfl, Numeral.take_ne htake, rfl⟩
    | none =>
      rw [htake] at h
      dsimp only at h
      split_ifs at h
      exact ⟨rfl, between_depth (complete_depth _ _) h⟩
  | word word read =>
    dsimp only at h
    split_ifs at h with hspelled hlast
    · cases h
      exact ⟨rfl, word.spelling_ne hspelled, complete_depth _ _⟩
    · cases h
      exact ⟨rfl, word.spelling_ne hspelled, rfl⟩
  | value => exact ⟨rfl, between_depth rfl h⟩
  | firstItem => exact ⟨rfl, between_depth rfl h⟩
  | items found => exact ⟨rfl, between_depth rfl h⟩
  | firstKey => exact ⟨rfl, between_depth rfl h⟩
  | nextKey found => exact ⟨rfl, between_depth rfl h⟩
  | colon found key => exact ⟨rfl, between_depth rfl h⟩
  | members found => exact ⟨rfl, between_depth rfl h⟩
  | done document => exact ⟨rfl, between_depth rfl h⟩

/-- **How much of an escape is read** is what the characters say. -/
theorem readChar_depth {q q' : State H} {c : Char} (h : readChar q c = some q') :
    q'.depth = unfinished q.depth c := by
  by_cases hinside : q.Inside
  · obtain ⟨mode, stack⟩ := q
    obtain ⟨place, text, quoted, hmode⟩ := hinside
    dsimp only at hmode
    subst hmode
    obtain ⟨taken, htake, rfl⟩ := Option.map_eq_some_iff.mp h
    rw [Taken.state_depth]
    exact Quoted.take_depth htake
  · obtain ⟨hq, hslash, hq'⟩ := readChar_outside hinside h
    rw [hq', hq, unfinished_zero, if_neg hslash]

end Depth

end Kerbridge.JsonText

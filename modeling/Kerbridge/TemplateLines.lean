import Kerbridge.ConfigSet
import Kerbridge.Ldif

/-!
# The options of a template, line by line

A template names each of its options on one line, commented out. The line says what
type the option holds, and an answer is written in its place. What an answered
template states is a list of paths and values.
-/

namespace Kerbridge.Decisions

open UnicodeText

/-- The library that reads and prints the format of the files, with its type of values. -/
structure Toml where
  Value : Type
  string : String → Value
  array : List Value → Value
  /-- The name of a value's type. -/
  typeStr : Value → String
  typeStr_string : ∀ text, typeStr (string text) = "string"
  /-- A value on its own. -/
  parse : String → Option Value
  display : Value → String
  /-- What a whole document states: the values by their dotted paths. -/
  document : String → Option (List (String × Value))

/-- The lines of a text. -/
def textLines (text : String) : List String := (Ldif.lines text.toList).map String.ofList

/-- The table a line opens. -/
def headerName (line : String) : Option String :=
  (stripPrefix line "[").bind fun rest => stripSuffix rest "]"

/-- A character of a key. -/
def isKeyChar (c : Char) : Bool := ConfigSet.isAsciiAlphanumeric c || c == '_'

/-- The key an option line names, on a line that is one. -/
def optionKey (line : String) : Option String :=
  let rest := ((stripPrefix line "#").getD line).toList
  let key := rest.takeWhile isKeyChar
  let after := (rest.drop key.length).dropWhile (· == ' ')
  if key ≠ [] ∧ after.head? = some '=' then some (String.ofList key) else none

/-- One option line, as the document writes it. -/
structure Line (toml : Toml) where
  path : String
  /-- The line states the option. -/
  stated : Bool
  /-- The value the option is shown with. -/
  shown : Option toml.Value

/-- The example that a line gives for the option on the next one. -/
def exampleOf (toml : Toml) (line : String) : Option toml.Value :=
  (stripPrefix line "# Example: ").bind fun shown => toml.parse (trim shown)

/-- The option lines below a header, the table and the example before them being given. -/
def linesFrom (toml : Toml) : String → Option toml.Value → List String → List (Line toml)
  | _, _, [] => []
  | table, example_, line :: rest =>
    match headerName line with
    | some name => linesFrom toml (name ++ ".") none rest
    | none =>
      match optionKey line with
      | some key =>
        let shown := ((splitOnce '=' line).map fun (_, value) => trim value).getD ""
        ⟨table ++ key, !startsWith line "#", (toml.parse shown).or example_⟩ ::
          linesFrom toml table (exampleOf toml line) rest
      | none => linesFrom toml table (exampleOf toml line) rest

/-- Every option a document names, with the shape of the line that names it. -/
def lines (toml : Toml) (document : String) : List (Line toml) :=
  linesFrom toml "" none (textLines document)

/-- The lines below a header with decisions put in their places, each with the option it then
states. -/
def rewrittenFrom (toml : Toml) (decisions : List (String × toml.Value)) :
    String → List String → List (String × Option (String × toml.Value))
  | _, [] => []
  | table, line :: rest =>
    match headerName line with
    | some name => (line, none) :: rewrittenFrom toml decisions (name ++ ".") rest
    | none =>
      match (optionKey line).bind fun key =>
          (decisions.find? fun d => d.1 == table ++ key).map fun d => (key, d.2) with
      | some (key, value) =>
        (key ++ " = " ++ toml.display value, some (table ++ key, value)) ::
          rewrittenFrom toml decisions table rest
      | none => (line, none) :: rewrittenFrom toml decisions table rest

/-- What an answered template states, line by line. -/
def statements (toml : Toml) (template : String) (decisions : List (String × toml.Value)) :
    List (String × toml.Value) :=
  (rewrittenFrom toml decisions "" (textLines template)).filterMap Prod.snd

/-- A template with decisions put in their places, and the decisions that have none. -/
def apply (toml : Toml) (template : String) (decisions : List (String × toml.Value)) :
    String × List String :=
  let out := rewrittenFrom toml decisions "" (textLines template)
  (String.join (out.map fun line => line.1 ++ "\n"),
    (decisions.map Prod.fst).filter fun path =>
      !((statements toml template decisions).map Prod.fst).contains path)

section Facts

variable {toml : Toml}

/-- The paths of the option lines below a header are those of the lines that name one. -/
theorem mem_rewrittenFrom {decisions : List (String × toml.Value)} {path : String}
    {value : toml.Value} (below : List String) : ∀ (table : String) (example_ : Option toml.Value),
    (path, value) ∈ (rewrittenFrom toml decisions table below).filterMap Prod.snd ↔
      path ∈ (linesFrom toml table example_ below).map Line.path ∧
        (decisions.find? fun d => d.1 == path).map Prod.snd = some value := by
  induction below with
  | nil => simp [rewrittenFrom, linesFrom]
  | cons line rest ih =>
    intro table example_
    unfold rewrittenFrom linesFrom
    cases hheader : headerName line with
    | some name =>
      dsimp only
      rw [List.filterMap_cons_none rfl]
      exact ih _ _
    | none =>
      dsimp only
      cases hkey : optionKey line with
      | none =>
        dsimp only [Option.bind_none]
        rw [List.filterMap_cons_none rfl]
        exact ih _ _
      | some key =>
        dsimp only [Option.bind_some]
        cases hfound : decisions.find? fun d => d.1 == table ++ key with
        | none =>
          dsimp only [Option.map_none]
          rw [List.filterMap_cons_none rfl, ih table (exampleOf toml line), List.map_cons,
            List.mem_cons]
          constructor
          · rintro ⟨hmem, hvalue⟩
            exact ⟨Or.inr hmem, hvalue⟩
          · rintro ⟨rfl | hmem, hvalue⟩
            · rw [hfound] at hvalue
              cases hvalue
            · exact ⟨hmem, hvalue⟩
        | some d =>
          dsimp only [Option.map_some]
          have hsome : Prod.snd (key ++ " = " ++ toml.display d.2, some (table ++ key, d.2)) =
              some (table ++ key, d.2) := rfl
          rw [List.filterMap_cons_some hsome, List.mem_cons, ih table (exampleOf toml line),
            List.map_cons, List.mem_cons]
          constructor
          · rintro (heq | ⟨hmem, hvalue⟩)
            · cases heq
              exact ⟨Or.inl rfl, by rw [hfound]; rfl⟩
            · exact ⟨Or.inr hmem, hvalue⟩
          · rintro ⟨rfl | hmem, hvalue⟩
            · rw [hfound] at hvalue
              cases hvalue
              exact Or.inl rfl
            · exact Or.inr ⟨hmem, hvalue⟩

/-- **An answered template states** the first decision about each option it names, and
nothing else. -/
theorem mem_statements {template : String} {decisions : List (String × toml.Value)} {path : String}
    {value : toml.Value} : (path, value) ∈ statements toml template decisions ↔
      path ∈ (lines toml template).map Line.path ∧
        (decisions.find? fun d => d.1 == path).map Prod.snd = some value :=
  mem_rewrittenFrom (textLines template) "" none

/-- A template states one value of an option at most. -/
theorem statements_unique {template : String} {decisions : List (String × toml.Value)}
    {path : String} {v w : toml.Value} (hv : (path, v) ∈ statements toml template decisions)
    (hw : (path, w) ∈ statements toml template decisions) : v = w := by
  have hvalue := (mem_statements.mp hv).2
  rw [(mem_statements.mp hw).2] at hvalue
  exact (Option.some.inj hvalue).symm

/-- A decision about an option that the template names is stated, by itself or by one before
it. -/
theorem stated_of_decided {template : String} {decisions : List (String × toml.Value)}
    {path : String} {value : toml.Value} (hnamed : path ∈ (lines toml template).map Line.path)
    (hdecided : (path, value) ∈ decisions) :
    ∃ v, (path, v) ∈ statements toml template decisions := by
  have hsome : (decisions.find? fun d => d.1 == path).isSome :=
    List.find?_isSome.mpr ⟨(path, value), hdecided, beq_self_eq_true path⟩
  obtain ⟨d, hd⟩ := Option.isSome_iff_exists.mp hsome
  exact ⟨d.2, mem_statements.mpr ⟨hnamed, by rw [hd]; rfl⟩⟩

/-- The decisions that have no place are those about options the template does not name. -/
theorem mem_missed {template : String} {decisions : List (String × toml.Value)} {path : String} :
    path ∈ (apply toml template decisions).2 ↔
      (∃ value, (path, value) ∈ decisions) ∧ path ∉ (lines toml template).map Line.path := by
  unfold apply
  simp only [List.mem_filter, List.mem_map, Prod.exists, exists_and_right, exists_eq_right,
    Bool.not_eq_true', List.contains_eq_mem, decide_eq_false_iff_not]
  constructor
  · rintro ⟨⟨value, hdecided⟩, hnot⟩
    refine ⟨⟨value, hdecided⟩, fun hnamed => hnot ?_⟩
    exact stated_of_decided (List.mem_map.mpr hnamed) hdecided
  · rintro ⟨hdecided, hnot⟩
    refine ⟨hdecided, ?_⟩
    rintro ⟨v, hv⟩
    exact hnot (List.mem_map.mp (mem_statements.mp hv).1)

end Facts

end Kerbridge.Decisions

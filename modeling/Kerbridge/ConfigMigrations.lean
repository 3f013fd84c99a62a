import Kerbridge.TomlTable
import Kerbridge.UnicodeText

/-!
# Changes to the shape of the config set

A list of changes, oldest first, is replayed from the top over the files of a config set.
Each does nothing unless what it describes is in the file. Here are the changes and the
replay, which fails where the program would panic.
-/

namespace Kerbridge.ConfigMigrations

open UnicodeText Toml

/-- One change to the shape of the config set. -/
inductive Migration where
  | renamed (file fromKey toKey : String)
  | moved (file key toFile toKey : String)
  | spreadToSources (file key toKey : String)
  | retired (file key advice : String)
  | valueRenamed (file key fromValue toValue : String)
  deriving DecidableEq

/-- What a source file is called in an entry. -/
def sourceFile : String := "idp_<name>.toml"

/-- The file an entry reads. -/
def Migration.file : Migration → String
  | .renamed file _ _ => file
  | .moved file _ _ _ => file
  | .spreadToSources file _ _ => file
  | .retired file _ _ => file
  | .valueRenamed file _ _ _ => file

/-- The key an entry reads. -/
def Migration.key : Migration → String
  | .renamed _ fromKey _ => fromKey
  | .moved _ key _ _ => key
  | .spreadToSources _ key _ => key
  | .retired _ key _ => key
  | .valueRenamed _ key _ _ => key

/-- `matches`: whether an entry has something to say about an option holding this. -/
def Migration.matchesValue (m : Migration) : Option Value → Bool
  | none => false
  | some value =>
    match m with
    | .valueRenamed _ _ fromValue _ => value.asStr = some fromValue
    | _ => true

/-- One line for an operator: what to do. -/
def Migration.instruction : Migration → String
  | .renamed _ fromKey toKey => "rename `" ++ fromKey ++ "` to `" ++ toKey ++ "`"
  | .moved _ key toFile toKey => "move `" ++ key ++ "` to `" ++ toKey ++ "` in " ++ toFile
  | .spreadToSources _ key toKey =>
    "copy `" ++ key ++ "` to `" ++ toKey ++ "` in every " ++ sourceFile ++ ", then remove it"
  | .retired _ key advice => "remove `" ++ key ++ "`: " ++ advice
  | .valueRenamed _ key fromValue toValue =>
    "`" ++ key ++ " = \"" ++ fromValue ++ "\"` is now `" ++ key ++ " = \"" ++ toValue ++ "\"`"

/-- The list that ships, oldest first. -/
def migrations : List Migration :=
  [.valueRenamed "issuerd.toml" "audit_log_file" "/var/lib/kerbridge-audit/issuer.log"
      "/var/log/kerbridge/issuerd/audit.log",
    .valueRenamed "broker.toml" "audit_log_file" "/var/lib/kerbridge-audit/broker.log"
      "/var/log/kerbridge/broker/audit.log",
    .renamed "sync.toml" "cycle_deadline_seconds" "read_deadline_seconds",
    .retired "sync.toml" "read_deadline_seconds"
      "a read runs until it is done, and a stalled one is abandoned on its own",
    .spreadToSources "sync.toml" "sam_source" "provider_config.sam_source"]

/-- No key is used again after an entry retired it: the ratchet, with the keys gone so far. -/
def ratchet (gone : List (String × String)) : List Migration → Bool
  | [] => true
  | m :: rest =>
    (m.file, m.key) ∉ gone &&
      ratchet (match m with
        | .valueRenamed _ _ _ _ => gone
        | _ => gone ++ [(m.file, m.key)]) rest

/-- `shape_of`: a filename as an entry names it. -/
def shapeOf (file : String) : String :=
  if startsWith file "idp_" && ".toml".toList.isSuffixOf file.toList then sourceFile else file

/-- The steps of a dotted path, as it is read. -/
def steps (path : String) : List String := split '.' path

/-- The steps of a dotted path, as a value is put there: empty ones on the way are left out. -/
def putSteps (path : String) : List String :=
  (steps path).dropLast.filter (· ≠ "") ++ [(steps path).getLast?.getD ""]

/-- A config set: its files in order, and their documents. -/
structure Documents where
  files : List String
  document : String → Table
  nodup : files.Nodup

/-- A config set with one document in place of another. -/
def Documents.update (set : Documents) (file : String) (t : Table) : Documents :=
  { set with document := fun other => if other = file then t else set.document other }

/-- The source files of a config set. -/
def Documents.sources (set : Documents) : List String :=
  set.files.filter fun file => shapeOf file = sourceFile

/-- A line of the report: what changed, or what could not be moved. -/
inductive Line where
  | left (file key toFile : String)
  | done (file : String) (m : Migration)
  deriving DecidableEq

/-- A line as it is shown. -/
def Line.print : Line → String
  | .left file key toFile =>
    file ++ ": `" ++ key ++ "` belongs in " ++ toFile ++ ", which this deployment does not " ++
      "have -- it was left where it is"
  | .done file m => file ++ ": " ++ m.instruction

/-- The line about an option whose file the deployment does not have. -/
def leftLine (m : Migration) (file : String) (set : Documents) : Option Line :=
  match m with
  | .moved _ key toFile _ =>
    if toFile ∉ set.files ∧ ((set.document file).get key).isSome then some (.left file key toFile)
    else none
  | _ => none

/-- Whether an entry copies into source files of which there are none. -/
def nowhere (m : Migration) (sources : List String) : Bool :=
  match m with
  | .spreadToSources _ _ _ => sources.isEmpty
  | _ => false

/-- A value put into one document. -/
def putIn (value : Value) (path : List String) (set : Documents) (file : String) :
    Option Documents :=
  (putPath value path (set.document file)).map (set.update file)

/-- What an entry does to a file it matches. -/
def act (m : Migration) (sources : List String) (file : String) (set : Documents) :
    Option Documents :=
  match m with
  | .renamed _ fromKey toKey =>
    match takePath (steps fromKey) (set.document file) with
    | none => none
    | some (value, rest) => putIn value (putSteps toKey) (set.update file rest) file
  | .retired _ key _ =>
    match takePath (steps key) (set.document file) with
    | none => some set
    | some (_, rest) => some (set.update file rest)
  | .valueRenamed _ key _ toValue => putIn (.string toValue) (putSteps key) set file
  | .moved _ key toFile toKey =>
    match takePath (steps key) (set.document file) with
    | none => some set
    | some (value, rest) =>
      if toFile ∈ set.files then putIn value (putSteps toKey) (set.update file rest) toFile
      else none
  | .spreadToSources _ key toKey =>
    match takePath (steps key) (set.document file) with
    | none => some set
    | some (value, rest) => sources.foldlM (putIn value (putSteps toKey)) (set.update file rest)

/-- One entry over one file. -/
def replayFile (m : Migration) (sources : List String) (file : String) (set : Documents) :
    Option (Documents × List Line) :=
  match leftLine m file set with
  | some line => some (set, [line])
  | none =>
    if nowhere m sources then some (set, [])
    else if m.matchesValue (atPath (steps m.key) (set.document file)) then
      (act m sources file set).map fun set' => (set', [.done file m])
    else some (set, [])

/-- One file, with the report so far. -/
def turn (m : Migration) (sources : List String) (s : Documents × List Line) (file : String) :
    Option (Documents × List Line) :=
  (replayFile m sources file s.1).map fun r => (r.1, s.2 ++ r.2)

/-- The files of a config set that an entry is about. -/
def filesOf (files : List String) (m : Migration) : List String :=
  files.filter fun file => shapeOf file = m.file

/-- One entry over every file it is about. -/
def replayEntry (s : Documents × List Line) (m : Migration) : Option (Documents × List Line) :=
  (filesOf s.1.files m).foldlM (turn m s.1.sources) s

/-- `replay_with`: a whole list over a config set, with the report. -/
def replayWith (list : List Migration) (set : Documents) : Option (Documents × List Line) :=
  list.foldlM replayEntry (set, [])

/-- `replay`. -/
def replay (set : Documents) : Option (Documents × List Line) := replayWith migrations set

end Kerbridge.ConfigMigrations

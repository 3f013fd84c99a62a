import Kerbridge.Fallible
import Kerbridge.SyncDirectory
import Kerbridge.TemplateLines

/-!
# A whole config set, written from templates and answers

The command line decides which sources exist and answers options. Either nothing is
written, or every file of the set is, from this version's template with the answers
in their places.
-/

namespace Kerbridge.Kbconfig

open UnicodeText Decisions ConfigSet
open SyncDirectory (Provider)

/-- The file that lists the sources. -/
def mainFile : String := "main.toml"

/-- The files of a set, apart from those of its sources. -/
def baseFiles : List String :=
  [mainFile, "realm.toml", "issuerd.toml", "broker.toml", "sync.toml", "kbmanage.toml"]

/-- What a source file spells to select an adapter. -/
def providerName : Provider → String
  | .entra => "entra"
  | .authentik => "authentik"

/-- A file of this version, before anything is answered in it. -/
structure Template where
  name : String
  body : String
  /-- The options a file must state, as the schema has them. -/
  required : Except String (List String)

/-- The options a template names. -/
def optionPaths (toml : Toml) (body : String) : List String := (lines toml body).map Line.path

/-- The templates of this version. -/
structure Version (toml : Toml) where
  base : Except String (List Template)
  /-- The file of a source, of a name and an adapter. -/
  source : String → Provider → Except String Template
  baseNames : ∀ files, base = .ok files → files.map Template.name = baseFiles
  sourceNames : ∀ name provider f, source name provider = .ok f → f.name = sourceFile name
  /-- The main file names the list of the sources. -/
  listsSources : ∀ files, base = .ok files → ∀ f ∈ files, f.name = mainFile →
    "sources" ∈ optionPaths toml f.body
  /-- The file of a source names the source and its adapter. -/
  namesSource : ∀ name provider f, source name provider = .ok f →
    "name" ∈ optionPaths toml f.body ∧ "provider" ∈ optionPaths toml f.body

/-- One file about to be written, with the values the command decides. -/
structure File (toml : Toml) extends Template where
  decided : List (String × toml.Value)

/-- The identity of a source: its name, and its adapter. -/
structure Source where
  name : String
  provider : Provider
  deriving DecidableEq

/-- One answer, split up but not yet interpreted. -/
structure Answer where
  file : String
  path : String
  text : String
  deriving DecidableEq

section Arguments

variable [UnicodeTables]

/-- The adapter of a name. -/
def providerFromName (name : String) : Except String Provider :=
  if name = "entra" then .ok .entra
  else if name = "authentik" then .ok .authentik
  else .error (UnicodeTables.debug name ++ " is not an adapter this build carries")

/-- A source argument. The adapter's name defaults to the source's. -/
def Source.parse (argument : String) : Except String Source :=
  let (name, provider) := (splitOnce '=' argument).getD (argument, argument)
  if !isSourceName name then
    .error ("--source " ++ argument ++ ": " ++ UnicodeTables.debug name ++ " is not a source name. " ++
      "The name is a path segment in this source's broker URL, a filename stem and an OU: letters, " ++
      "digits, '.', '-' and '_', starting with a letter or a digit.")
  else
    match providerFromName provider with
    | .error why => .error ("--source " ++ argument ++ ": provider: " ++ why)
    | .ok provider => .ok ⟨name, provider⟩

/-- A file's name without its extension. -/
def stem (file : String) : String := (stripSuffix file ".toml").getD file

/-- How an answer is named back to whoever wrote it. -/
def Answer.named (a : Answer) : String := stem a.file ++ "." ++ a.path

/-- An answer argument. The file ends at the first dot. -/
def Answer.parse (argument : String) : Except String Answer :=
  match splitOnce '=' argument with
  | none => .error ("--set " ++ argument ++ ": an answer is <file>.<option>=<value>")
  | some (path, text) =>
    match splitOnce '.' path with
    | none => .error ("--set " ++ argument ++ ": " ++ UnicodeTables.debug path ++ " names no file. " ++
        "An answer is <file>.<option>=<value>, as in realm.realm=EXAMPLE.SITE")
    | some (stem, option) => .ok ⟨stem ++ ".toml", option, text⟩

/-- The value an answer stands for, in view of the value that the template shows. -/
def Answer.value (toml : Toml) (a : Answer) (shown : Option toml.Value) :
    Except String toml.Value :=
  match shown with
  | some other =>
    if toml.typeStr other = "string" then .ok (toml.string a.text)
    else
      match toml.parse a.text with
      | some v => .ok v
      | none => .error ("--set " ++ a.named ++ ": this option holds " ++ toml.typeStr other ++
          ", and " ++ UnicodeTables.debug a.text ++ " is not one")
  | none => .ok ((toml.parse a.text).getD (toml.string a.text))

end Arguments

section Plan

variable {toml : Toml}

/-- The list of the sources, put into the main file. -/
def decideSources (listed : toml.Value) : List (File toml) → Except String (List (File toml))
  | [] => .error (mainFile ++ ": this version's template set has no such file")
  | f :: rest =>
    if f.name = mainFile then
      .ok ({ f with decided := f.decided ++ [("sources", listed)] } :: rest)
    else (decideSources listed rest).map (f :: ·)

/-- The file of a source, with its name and its adapter. -/
def Source.file (v : Version toml) (s : Source) : Except String (File toml) :=
  (v.source s.name s.provider).map fun t =>
    ⟨t, [("name", toml.string s.name), ("provider", toml.string (providerName s.provider))]⟩

/-- The file of one more source. -/
def addSource (v : Version toml) (files : List (File toml)) (s : Source) :
    Except String (List (File toml)) :=
  if files.any fun f => f.name == sourceFile s.name then
    .error ("--source " ++ s.name ++ ": named twice, and a source is one name")
  else (s.file v).map fun f => files ++ [f]

/-- The files of a set, with what the command decides in each. -/
def plan (v : Version toml) (sources : List Source) : Except String (List (File toml)) := do
  let templates ← v.base
  let files ← decideSources (toml.array (sources.map fun s => toml.string s.name))
    (templates.map fun t => ⟨t, []⟩)
  sources.foldlM (addSource v) files

end Plan

section Init

variable {toml : Toml} [UnicodeTables]

/-- The first of the answers that names what the command decides itself. -/
def overruled (files : List (File toml)) (answers : List Answer) : Option Answer :=
  answers.find? fun a => (files.filter fun f => f.name == a.file).any fun f =>
    f.decided.any fun d => d.1 == a.path

/-- What the answers about one file come to. -/
structure Replies (toml : Toml) where
  /-- Values to put into the template. -/
  answered : List (String × toml.Value)
  /-- Required options that were answered empty. -/
  missing : List String
  /-- Other options that were answered empty. -/
  defaulted : List String

/-- The value a template shows for an option. -/
def shownFor (toml : Toml) (body path : String) : Option toml.Value :=
  ((lines toml body).find? fun line => line.path == path).bind Line.shown

/-- Reads the answers about a file, one after another. -/
def replies (body : String) (required : List String) : List Answer → Except String (Replies toml)
  | [] => .ok ⟨[], [], []⟩
  | a :: rest =>
    if a.text = "" then
      (replies body required rest).map fun r =>
        if required.contains a.path then { r with missing := a.named :: r.missing }
        else { r with defaulted := a.named :: r.defaulted }
    else do
      let v ← a.value toml (shownFor toml body a.path)
      let r ← replies body required rest
      return { r with answered := (a.path, v) :: r.answered }

/-- One file with its answers. -/
structure Draft (toml : Toml) where
  file : File toml
  replies : Replies toml

/-- All that is put into the template of a draft. -/
def Draft.decisions (d : Draft toml) : List (String × toml.Value) :=
  d.file.decided ++ d.replies.answered

/-- What is written to the file of a draft. -/
def Draft.body (d : Draft toml) : String := (apply toml d.file.body d.decisions).1

/-- The answers of a draft that have no place. -/
def Draft.missed (d : Draft toml) : List String :=
  (apply toml d.file.body d.decisions).2.map fun path =>
    stem d.file.name ++ "." ++ path ++ ": " ++ d.file.name ++ " has no such option in this version"

/-- The answers about one file, put together. -/
def draft (answers : List Answer) (f : File toml) : Except String (Draft toml) :=
  match f.required with
  | .error why => .error (f.name ++ ": " ++ why)
  | .ok required =>
    (replies f.body required (answers.filter fun a => a.file == f.name)).map fun r => ⟨f, r⟩

/-- The answers, and the files with the answers in them. -/
def drafted (v : Version toml) (sources set : List String) :
    Except String (List Answer × List (Draft toml)) := do
  let sources ← sources.mapM Source.parse
  let files ← plan v sources
  let answers ← set.mapM Answer.parse
  match overruled files answers with
  | some a => .error ("--set " ++ a.named ++ ": `--source` decides that one. Name the source with " ++
      "`--source <name>[=<provider>]` and leave the option to it, so that main.sources and the " ++
      "files beside it cannot disagree.")
  | none => (files.mapM (draft answers)).map fun drafts => (answers, drafts)

/-- The answers about files that are not written. -/
def unplaceable (drafts : List (Draft toml)) (answers : List Answer) : List String :=
  (answers.filter fun a => !drafts.any fun d => d.file.name == a.file).map fun a =>
    a.named ++ ": this set writes no " ++ a.file

/-- What is said of answers that were not written. -/
def report (drafts : List (Draft toml)) (answers : List Answer) : List String :=
  (drafts.flatMap fun d => d.replies.defaulted).map
      (· ++ ": answered empty and not required -- left at its default") ++
    (unplaceable drafts answers ++ drafts.flatMap Draft.missed).map
      (· ++ " -- your answer was not written")

/-- What the files of a directory hold. -/
abbrev Directory := String → Option String

/-- Writes a set of files, or none of them. -/
def writeSet (makes : Bool) (dir : String) (force : Bool) (written : List (String × String))
    (held : Directory) : Directory × Except String Unit :=
  let present := (written.map Prod.fst).filter fun name => (held name).isSome
  if !makes then (held, .error ("creating " ++ dir))
  else if !force && !present.isEmpty then
    (held, .error (dir ++ " already holds " ++ ", ".intercalate present ++
      " -- pass --force to overwrite"))
  else (written.foldl (fun held file => Function.update held file.1 (some file.2)) held, .ok ())

/-- Writes a config set from the templates and the answers, and reports the answers that were
not written. -/
def init (v : Version toml) (makes : Bool) (dir : String) (sources set : List String)
    (force : Bool) (held : Directory) : Directory × Except String (List String) :=
  match drafted v sources set with
  | .error why => (held, .error why)
  | .ok (answers, drafts) =>
    let missing := drafts.flatMap fun d => d.replies.missing
    if !missing.isEmpty then
      (held, .ok (report drafts answers ++ [dir ++
        ": nothing written -- required and answered empty: " ++ ", ".intercalate missing]))
    else
      match writeSet makes dir force (drafts.map fun d => (d.file.name, d.body)) held with
      | (held, .error why) => (held, .error why)
      | (held, .ok ()) => (held, .ok (report drafts answers))

end Init

end Kerbridge.Kbconfig

import Kerbridge.AgentSettings
import Kerbridge.FileSteps
import Kerbridge.UnixPath

/-!
# The user's file on disk

The file is read again before each change, and is replaced whole. What a change does
not name is then as it was on disk, whatever this process remembers.
-/

namespace Kerbridge.SettingsFile

open UnicodeText FileSteps UnixPath

/-- All that the user's file states. -/
structure FileConfig extends ClientAgent.FileConfig where
  ntlmFallbackRecovery : Option Bool
  silent : Option Bool
  deriving DecidableEq

/-- A file that says nothing. -/
def FileConfig.default : FileConfig := ⟨.empty, none, none⟩

/-- All that machine policy decides. -/
structure Policy extends ClientAgent.Policy where
  ntlmFallbackRecovery : Option Bool
  silent : Option Bool

/-- All that a deployment prefers. -/
structure Defaults extends ClientAgent.Defaults where
  ntlmFallbackRecovery : Option Bool
  silent : Option Bool

/-- The layers of the settings, and where the second one is kept. -/
structure Settings where
  file : FileConfig
  policy : Policy
  /-- The broker that DNS named. -/
  discovered : Option String
  defaults : Option Defaults
  /-- The file, where an application directory resolves. -/
  path : Option String

/-- The library that reads and writes the format of the file. -/
structure Toml where
  fromStr : String → Except String FileConfig
  toStringPretty : FileConfig → Except String String

/-- How the steps of one update go, and which process makes it. -/
structure Outcomes where
  /-- The file is read, where there is one. -/
  reads : Bool
  /-- The directory of the file is made, or is there. -/
  makesDirectory : Bool
  /-- The file is replaced. -/
  steps : Steps
  pid : ℕ

/-- What the bytes of a file state. A missing file states nothing. -/
def stated (toml : Toml) (path : String) : Option (List UInt8) → Except String FileConfig
  | none => .ok .default
  | some bytes =>
    match fromUtf8 bytes with
    | none => .error ("reading " ++ path)
    | some text => (toml.fromStr text).mapError fun why => "parsing " ++ path ++ ": " ++ why

/-- Reads the file. -/
def FileConfig.read (toml : Toml) (o : Outcomes) (path : String) (files : Files String UInt8) :
    Except String FileConfig :=
  if !o.reads && (files path).isSome then .error ("reading " ++ path)
  else stated toml path (files path)

/-- The temporary file of a process, beside the file. -/
def tempPath (o : Outcomes) (dir : String) (name : List Char) : String :=
  join dir (String.ofList name.reverse ++ "." ++ toString o.pid ++ ".tmp")

/-- What is said of a replacement that failed. -/
def stageText (temp path : String) : Stage → String
  | .create => "writing " ++ temp
  | .write => "writing " ++ temp
  | .flush => "writing " ++ temp
  | .replace => "replacing " ++ path

/-- Replaces the file. -/
def replace (o : Outcomes) (path text : String) (files : Files String UInt8) :
    Files String UInt8 × Except String Unit :=
  match parent path with
  | none => (files, .error "config.toml has no directory")
  | some dir =>
    if !o.makesDirectory then (files, .error "creating the config directory")
    else
      match fileName path with
      | none => (files, .error "config.toml has no file name")
      | some (name, _) =>
        match replaced o.steps (tempPath o dir name) path (bytesOf text) files with
        | (files, .error stage) => (files, .error (stageText (tempPath o dir name) path stage))
        | (files, .ok ()) => (files, .ok ())

/-- Changes the file as it is on disk now, and makes the result this process's layer. -/
def Settings.update (toml : Toml) (o : Outcomes) (change : FileConfig → FileConfig) (s : Settings)
    (files : Files String UInt8) : Settings × Files String UInt8 × Except String Unit :=
  match s.path with
  | none =>
    ({ s with file := change s.file }, files, .error "cannot find the application directory")
  | some path =>
    match FileConfig.read toml o path files with
    | .error why =>
      ({ s with file := change s.file }, files,
        if change s.file = s.file then .ok () else .error ("not replacing config.toml: " ++ why))
    | .ok file =>
      let (files, written) :=
        if change file = file then (files, .ok ())
        else
          match toml.toStringPretty (change file) with
          | .error why => (files, .error ("serializing config.toml: " ++ why))
          | .ok text => replace o path text files
      ({ s with file := change file }, files, written)

/-- Records a deployment's answer for a profile that has none. -/
def seedAutostart (want : Bool) (f : FileConfig) : FileConfig :=
  { f with autostart := some (f.autostart.getD want) }

/-- Makes the autostart entry agree with whichever layer decides it. A deployment default
is recorded in the file, unless an answer has been recorded since. -/
def Settings.enforceAutostart (toml : Toml) (o : Outcomes) (entry : ClientAgent.AutostartEntry)
    (s : Settings) (files : Files String UInt8) :
    Settings × Files String UInt8 × Except String Unit :=
  match s.policy.autostart, s.file.autostart with
  | some _, _ => (s, files, .ok ())
  | none, some _ => (s, files, .ok ())
  | none, none =>
    match s.defaults.bind fun defaults => defaults.autostart with
    | none => (s, files, .ok ())
    | some want =>
      if entry.machineWide then (s, files, .ok ())
      else if entry.enabled ≠ want ∧ ¬entry.settable then (s, files, .ok ())
      else s.update toml o (seedAutostart want) files

/-- The bytes of the file. -/
def held (s : Settings) (files : Files String UInt8) : Option (List UInt8) := s.path.bind files

/-- What the file states on disk. -/
def onDisk (toml : Toml) (s : Settings) (files : Files String UInt8) : Except String FileConfig :=
  match s.path with
  | none => .error "cannot find the application directory"
  | some path => stated toml path (files path)

/-- What an update reads. -/
def readBy (toml : Toml) (o : Outcomes) (s : Settings) (files : Files String UInt8) :
    Except String FileConfig :=
  match s.path with
  | none => .error "cannot find the application directory"
  | some path => FileConfig.read toml o path files

/-- What one update does, from one state of the settings and the files to another. -/
structure Updated (toml : Toml) (o : Outcomes) (change : FileConfig → FileConfig) (s : Settings)
    (files : Files String UInt8) (s' : Settings) (files' : Files String UInt8)
    (result : Except String Unit) : Prop where
  /-- A field the change does not name is on disk as it was. -/
  unnamed : ∀ {β : Type} (field : FileConfig → β), (∀ f, field (change f) = field f) →
    ∀ f, onDisk toml s files = .ok f → ∃ f', onDisk toml s' files' = .ok f' ∧ field f' = field f
  /-- A file that does not parse is not replaced. -/
  unparsed : ∀ why, onDisk toml s files = .error why → held s' files' = held s files
  /-- An update that fails leaves the bytes of the file. -/
  failed : ∀ why, result = .error why → held s' files' = held s files
  /-- The layer in memory is the file as read and the change. -/
  layer : ∀ f, readBy toml o s files = .ok f → s'.file = change f
  /-- Where the file was not read, the change is to the layer in memory. -/
  unread : ∀ why, readBy toml o s files = .error why → s'.file = change s.file
  /-- What is written is the file as it was on disk, and the change. -/
  written : held s' files' = held s files ∨ ∃ f text, onDisk toml s files = .ok f ∧ change f ≠ f ∧
    toml.toStringPretty (change f) = .ok text ∧ held s' files' = some (bytesOf text)
  /-- No other layer changes. -/
  layers : s' = { s with file := s'.file }

/-- The temporary file is another one than the file. -/
theorem tempPath_ne {o : Outcomes} {path : String} {name before : List Char}
    (h : fileName path = some (name, before)) (dir : String) : tempPath o dir name ≠ path := by
  intro heq
  have hplain := fileName_plain h
  obtain ⟨longer, hlonger⟩ : ∃ longer, longer =
      'p' :: 'm' :: 't' :: '.' :: ((toString o.pid).toList.reverse ++ '.' :: name) := ⟨_, rfl⟩
  have hslash : '/' ∉ longer := by
    intro hmem
    rw [hlonger] at hmem
    simp only [List.mem_cons, List.mem_append, List.mem_reverse] at hmem
    rcases hmem with hc | hc | hc | hc | hc | hc | hc
    · cases hc
    · cases hc
    · cases hc
    · cases hc
    · rw [Nat.toString_eq_repr, Nat.toList_repr] at hc
      have hdigit := Nat.isDigit_of_mem_toDigits (by decide) (by decide) hc
      cases hdigit
    · cases hc
    · exact hplain hc
  obtain ⟨before', hjoin⟩ := fileName_join dir hslash ⟨'p', _, hlonger, by decide⟩
  have htext : String.ofList name.reverse ++ "." ++ toString o.pid ++ ".tmp" =
      String.ofList longer.reverse := by
    apply String.toList_inj.mp
    simp only [String.toList_append, String.toList_ofList, hlonger, List.reverse_cons,
      List.reverse_append, List.reverse_reverse, List.append_assoc]
    rfl
  rw [← htext] at hjoin
  unfold tempPath at heq
  rw [heq, h] at hjoin
  have hlength := congrArg List.length (Prod.mk.inj (Option.some.inj hjoin)).1
  rw [hlonger] at hlength
  simp at hlength
  omega

/-- A replacement puts the text in the file, or leaves the file as it is. -/
theorem replace_spec (o : Outcomes) (path text : String) (files : Files String UInt8) :
    ((replace o path text files).2 = .ok () ∧
      (replace o path text files).1 path = some (bytesOf text)) ∨
    ((∃ why, (replace o path text files).2 = .error why) ∧
      (replace o path text files).1 path = files path) := by
  unfold replace
  cases parent path with
  | none => exact Or.inr ⟨⟨_, rfl⟩, rfl⟩
  | some dir =>
    dsimp only
    cases o.makesDirectory with
    | false => exact Or.inr ⟨⟨_, rfl⟩, rfl⟩
    | true =>
      rw [if_neg (by simp)]
      cases hname : fileName path with
      | none => exact Or.inr ⟨⟨_, rfl⟩, rfl⟩
      | some named =>
        obtain ⟨name, before⟩ := named
        dsimp only
        rcases replaced_spec o.steps (tempPath o dir name) path (bytesOf text) files with
          ⟨_, hreplaced⟩ | ⟨_, stage, hreplaced⟩
        · rw [hreplaced]
          exact Or.inl ⟨rfl, Function.update_self ..⟩
        · rw [hreplaced]
          exact Or.inr ⟨⟨_, rfl⟩, Function.update_of_ne (tempPath_ne hname dir).symm _ _⟩

/-- A file that is read is what is on disk. -/
theorem onDisk_of_readBy {toml : Toml} {o : Outcomes} {s : Settings} {files : Files String UInt8}
    {f : FileConfig} (h : readBy toml o s files = .ok f) : onDisk toml s files = .ok f := by
  unfold readBy at h
  unfold onDisk
  cases hpath : s.path with
  | none =>
    rw [hpath] at h
    cases h
  | some path =>
    rw [hpath] at h
    dsimp only at h ⊢
    unfold FileConfig.read at h
    split at h
    · cases h
    · exact h

/-- What was written is what is on disk. -/
theorem onDisk_written {toml : Toml}
    (hprint : ∀ f text, toml.toStringPretty f = .ok text → toml.fromStr text = .ok f)
    {s : Settings} {files : Files String UInt8} {f : FileConfig} {text : String}
    (htext : toml.toStringPretty f = .ok text) (h : held s files = some (bytesOf text)) :
    onDisk toml s files = .ok f := by
  unfold held at h
  unfold onDisk
  obtain ⟨path, hpath, hbytes⟩ := Option.bind_eq_some_iff.mp h
  rw [hpath]
  dsimp only
  rw [hbytes, stated, fromUtf8_bytesOf]
  dsimp only
  rw [hprint f text htext]
  rfl

/-- What is on disk is stated by the bytes of the file. -/
theorem onDisk_congr {toml : Toml} {s s' : Settings} {files files' : Files String UInt8}
    (hpath : s'.path = s.path) (h : held s' files' = held s files) :
    onDisk toml s' files' = onDisk toml s files := by
  unfold held at h
  unfold onDisk
  rw [hpath] at h ⊢
  cases hwhere : s.path with
  | none => rfl
  | some path =>
    rw [hwhere] at h
    change files' path = files path at h
    dsimp only
    rw [h]

/-- An update either reads nothing and leaves the files alone, or reads the file, keeps it
with the change, and leaves the file's bytes or replaces them by that. -/
theorem update_spec (toml : Toml) (o : Outcomes) (change : FileConfig → FileConfig) (s : Settings)
    (files : Files String UInt8) :
    (∃ why result, readBy toml o s files = .error why ∧
      s.update toml o change files = ({ s with file := change s.file }, files, result)) ∨
    (∃ f files' result, readBy toml o s files = .ok f ∧
      s.update toml o change files = ({ s with file := change f }, files', result) ∧
      (held s files' = held s files ∨
        (result = .ok () ∧ change f ≠ f ∧ ∃ text, toml.toStringPretty (change f) = .ok text ∧
          held s files' = some (bytesOf text)))) := by
  unfold Settings.update readBy held
  cases hpath : s.path with
  | none => exact Or.inl ⟨_, _, rfl, rfl⟩
  | some path =>
    dsimp only [Option.bind_some]
    cases hread : FileConfig.read toml o path files with
    | error why => exact Or.inl ⟨_, _, rfl, rfl⟩
    | ok f =>
      dsimp only
      by_cases hsame : change f = f
      · rw [if_pos hsame]
        exact Or.inr ⟨f, files, .ok (), rfl, rfl, Or.inl rfl⟩
      · rw [if_neg hsame]
        cases htext : toml.toStringPretty (change f) with
        | error why => exact Or.inr ⟨f, files, _, rfl, rfl, Or.inl rfl⟩
        | ok text =>
          refine Or.inr ⟨f, (replace o path text files).1, (replace o path text files).2, rfl, rfl, ?_⟩
          rcases replace_spec o path text files with ⟨hok, hbytes⟩ | ⟨_, hbytes⟩
          · exact Or.inr ⟨hok, hsame, text, htext, hbytes⟩
          · exact Or.inl hbytes

/-- **One update** changes on disk what it names, and nothing else. -/
theorem updated {toml : Toml}
    (hprint : ∀ f text, toml.toStringPretty f = .ok text → toml.fromStr text = .ok f)
    (o : Outcomes) (change : FileConfig → FileConfig) (s : Settings) (files : Files String UInt8) :
    Updated toml o change s files (s.update toml o change files).1
      (s.update toml o change files).2.1 (s.update toml o change files).2.2 := by
  rcases update_spec toml o change s files with
    ⟨why, result, hread, hupdate⟩ | ⟨f, files', result, hread, hupdate, hcases⟩
  · rw [hupdate]
    constructor
    · intro β field _ f hf
      exact ⟨f, hf, rfl⟩
    · intro _ _
      rfl
    · intro _ _
      rfl
    · intro f hf
      rw [hread] at hf
      cases hf
    · intro _ _
      rfl
    · exact Or.inl rfl
    · rfl
  · rw [hupdate]
    have hdisk := onDisk_of_readBy hread
    constructor
    · intro β field hfield f' hf'
      rw [hdisk] at hf'
      cases hf'
      rcases hcases with hsame | ⟨_, _, text, htext, hheld⟩
      · exact ⟨f, (onDisk_congr rfl hsame).trans hdisk, rfl⟩
      · exact ⟨change f, onDisk_written hprint htext hheld, hfield f⟩
    · intro why hwhy
      rw [hdisk] at hwhy
      cases hwhy
    · intro why hwhy
      rcases hcases with hsame | ⟨hok, _⟩
      · exact hsame
      · rw [hok] at hwhy
        cases hwhy
    · intro f' hf'
      rw [hread] at hf'
      cases hf'
      rfl
    · intro why hwhy
      rw [hread] at hwhy
      cases hwhy
    · rcases hcases with hsame | ⟨_, hnew, text, htext, hheld⟩
      · exact Or.inl hsame
      · exact Or.inr ⟨f, text, hdisk, hnew, htext, hheld⟩
    · rfl

/-- What an autostart seed puts on disk: nothing, or the deployment's answer, for a machine
that neither policy nor the file decides. -/
def Seeded (toml : Toml) (s : Settings) (files : Files String UInt8) (s' : Settings)
    (files' : Files String UInt8) : Prop :=
  held s' files' = held s files ∨ ∃ want f text, s.policy.autostart = none ∧
    (s.defaults.bind fun defaults => defaults.autostart) = some want ∧
    onDisk toml s files = .ok f ∧ f.autostart = none ∧
    toml.toStringPretty { f with autostart := some want } = .ok text ∧
    held s' files' = some (bytesOf text)

/-- The autostart entry is enforced through an update, or without one. -/
theorem enforceAutostart_spec (toml : Toml) (o : Outcomes) (entry : ClientAgent.AutostartEntry)
    (s : Settings) (files : Files String UInt8) :
    s.enforceAutostart toml o entry files = (s, files, .ok ()) ∨
    (s.policy.autostart = none ∧ ∃ want,
      (s.defaults.bind fun defaults => defaults.autostart) = some want ∧
      s.enforceAutostart toml o entry files = s.update toml o (seedAutostart want) files) := by
  unfold Settings.enforceAutostart
  split
  · exact Or.inl rfl
  · exact Or.inl rfl
  · rename_i hpolicy _
    split
    · exact Or.inl rfl
    · rename_i want hwant
      split
      · exact Or.inl rfl
      · split
        · exact Or.inl rfl
        · exact Or.inr ⟨hpolicy, want, hwant, rfl⟩

/-- A seed is recorded only where nothing was. -/
theorem seedAutostart_ne {want : Bool} {f : FileConfig} (h : seedAutostart want f ≠ f) :
    f.autostart = none ∧ seedAutostart want f = { f with autostart := some want } := by
  unfold seedAutostart at h ⊢
  cases hauto : f.autostart with
  | none => exact ⟨rfl, rfl⟩
  | some b =>
    refine absurd ?_ h
    rw [hauto, Option.getD_some, ← hauto]

/-- Enforcing the autostart entry writes a deployment's answer at most. -/
theorem seeded {toml : Toml}
    (hprint : ∀ f text, toml.toStringPretty f = .ok text → toml.fromStr text = .ok f)
    (o : Outcomes) (entry : ClientAgent.AutostartEntry) (s : Settings)
    (files : Files String UInt8) :
    Seeded toml s files (s.enforceAutostart toml o entry files).1
      (s.enforceAutostart toml o entry files).2.1 := by
  rcases enforceAutostart_spec toml o entry s files with hnone | ⟨hpolicy, want, hwant, hupdate⟩
  · rw [hnone]
    exact Or.inl rfl
  · rw [hupdate]
    rcases (updated hprint o (seedAutostart want) s files).written with
      hsame | ⟨f, text, hdisk, hnew, htext, hheld⟩
    · exact Or.inl hsame
    · obtain ⟨hauto, hseed⟩ := seedAutostart_ne hnew
      rw [hseed] at htext
      exact Or.inr ⟨want, f, text, hpolicy, hwant, hdisk, hauto, htext, hheld⟩

/-- What happens to the settings of a process and to the files of its machine. -/
inductive Turn where
  /-- This process changes the file. -/
  | update (o : Outcomes) (change : FileConfig → FileConfig)
  /-- This process makes the autostart entry agree with the layers. -/
  | enforceAutostart (o : Outcomes) (entry : ClientAgent.AutostartEntry)
  | setDiscovered (url : String)
  | setDefaults (defaults : Defaults)
  | clearDefaults
  /-- Other processes write files, the user's file among them. -/
  | rewrite (files : Files String UInt8)

/-- The settings and the files after a turn. -/
def Turn.next (toml : Toml) : Turn → Settings × Files String UInt8 → Settings × Files String UInt8
  | .update o change, (s, files) =>
    ((s.update toml o change files).1, (s.update toml o change files).2.1)
  | .enforceAutostart o entry, (s, files) =>
    ((s.enforceAutostart toml o entry files).1, (s.enforceAutostart toml o entry files).2.1)
  | .setDiscovered url, (s, files) => ({ s with discovered := some url }, files)
  | .setDefaults defaults, (s, files) => ({ s with defaults := some defaults }, files)
  | .clearDefaults, (s, files) => ({ s with defaults := none }, files)
  | .rewrite files, (s, _) => (s, files)

/-- The settings and the files after some turns. -/
def run (toml : Toml) (start : Settings × Files String UInt8) (turns : List Turn) :
    Settings × Files String UInt8 :=
  turns.foldl (fun state turn => turn.next toml state) start

/-- A turn of this process that does not name a field. -/
def Turn.Leaves {β : Type} (field : FileConfig → β) : Turn → Prop
  | .update _ change => ∀ f, field (change f) = field f
  | .enforceAutostart _ _ => ∀ want f, field (seedAutostart want f) = field f
  | .setDiscovered _ => True
  | .setDefaults _ => True
  | .clearDefaults => True
  | .rewrite _ => False

/-- A field that a turn does not name stays on disk as it was. -/
theorem next_leaves {toml : Toml}
    (hprint : ∀ f text, toml.toStringPretty f = .ok text → toml.fromStr text = .ok f)
    {β : Type} {field : FileConfig → β} {turn : Turn} (hleaves : turn.Leaves field)
    {state : Settings × Files String UInt8} {f : FileConfig}
    (hf : onDisk toml state.1 state.2 = .ok f) :
    ∃ f', onDisk toml (turn.next toml state).1 (turn.next toml state).2 = .ok f' ∧
      field f' = field f := by
  obtain ⟨s, files⟩ := state
  cases turn with
  | update o change => exact (updated hprint o change s files).unnamed field hleaves f hf
  | enforceAutostart o entry =>
    rcases enforceAutostart_spec toml o entry s files with hnone | ⟨_, want, _, hupdate⟩
    · refine ⟨f, ?_, rfl⟩
      dsimp only [Turn.next]
      rw [hnone]
      exact hf
    · dsimp only [Turn.next]
      rw [hupdate]
      exact (updated hprint o (seedAutostart want) s files).unnamed field (hleaves want) f hf
  | setDiscovered url => exact ⟨f, hf, rfl⟩
  | setDefaults defaults => exact ⟨f, hf, rfl⟩
  | clearDefaults => exact ⟨f, hf, rfl⟩
  | rewrite files => exact hleaves.elim

/-- A field that no turn names stays on disk as it was, over any number of turns. -/
theorem run_leaves {toml : Toml}
    (hprint : ∀ f text, toml.toStringPretty f = .ok text → toml.fromStr text = .ok f)
    {β : Type} {field : FileConfig → β} {turns : List Turn}
    (hleaves : ∀ turn ∈ turns, turn.Leaves field) {start : Settings × Files String UInt8}
    {f : FileConfig} (hf : onDisk toml start.1 start.2 = .ok f) :
    ∃ f', onDisk toml (run toml start turns).1 (run toml start turns).2 = .ok f' ∧
      field f' = field f := by
  induction turns generalizing start f with
  | nil => exact ⟨f, hf, rfl⟩
  | cons turn turns ih =>
    obtain ⟨hturn, hturns⟩ := List.forall_mem_cons.mp hleaves
    obtain ⟨f₁, hf₁, hsame₁⟩ := next_leaves hprint hturn hf
    obtain ⟨f₂, hf₂, hsame₂⟩ := ih hturns hf₁
    exact ⟨f₂, hf₂, hsame₂.trans hsame₁⟩

/-- **The user's file over a run**: after any turns, an update changes on disk what it
names and nothing else, and the autostart entry puts a deployment's answer there at most; and
what no turn of this process names stays as another process left it. -/
theorem settings_keep {toml : Toml}
    (hprint : ∀ f text, toml.toStringPretty f = .ok text → toml.fromStr text = .ok f)
    (start : Settings × Files String UInt8) (turns : List Turn) :
    (∀ o change, Updated toml o change (run toml start turns).1 (run toml start turns).2
      ((run toml start turns).1.update toml o change (run toml start turns).2).1
      ((run toml start turns).1.update toml o change (run toml start turns).2).2.1
      ((run toml start turns).1.update toml o change (run toml start turns).2).2.2) ∧
    (∀ o entry, Seeded toml (run toml start turns).1 (run toml start turns).2
      ((run toml start turns).1.enforceAutostart toml o entry (run toml start turns).2).1
      ((run toml start turns).1.enforceAutostart toml o entry (run toml start turns).2).2.1) ∧
    (∀ {β : Type} (field : FileConfig → β), (∀ turn ∈ turns, turn.Leaves field) →
      ∀ f, onDisk toml start.1 start.2 = .ok f →
        ∃ f', onDisk toml (run toml start turns).1 (run toml start turns).2 = .ok f' ∧
          field f' = field f) :=
  ⟨fun o change => updated hprint o change _ _, fun o entry => seeded hprint o entry _ _,
    fun _ hleaves _ hf => run_leaves hprint hleaves hf⟩

section Layers

/-- The settings as the agent's turns see them, without the fields that none of them reads. -/
def Settings.view (toml : Toml) (windows : Bool) (s : Settings) (files : Files String UInt8) :
    ClientAgent.Settings where
  file := s.file.toFileConfig
  policy := s.policy.toPolicy
  discovered := s.discovered
  defaults := s.defaults.map Defaults.toDefaults
  disk := match s.path with
    | none => .nowhere
    | some path => match stated toml path (files path) with
      | .error _ => .unreadable
      | .ok f => .holds f.toFileConfig
  windows := windows

/-- A change to the fields that the agent's turns see. -/
def lifted (change : ClientAgent.FileConfig → ClientAgent.FileConfig) (f : FileConfig) :
    FileConfig :=
  { f with toFileConfig := change f.toFileConfig }

/-- A lifted change keeps a file exactly when the change does. -/
theorem lifted_eq_iff (change : ClientAgent.FileConfig → ClientAgent.FileConfig) (f : FileConfig) :
    lifted change f = f ↔ change f.toFileConfig = f.toFileConfig := by
  constructor
  · intro h
    exact congrArg FileConfig.toFileConfig h
  · intro h
    unfold lifted
    rw [h]

/-- **The agent's turns see an update** as the one of their own model, which is told whether
the file can be written. -/
theorem update_view {toml : Toml}
    (hprint : ∀ f text, toml.toStringPretty f = .ok text → toml.fromStr text = .ok f)
    {o : Outcomes} (hreads : o.reads = true)
    (change : ClientAgent.FileConfig → ClientAgent.FileConfig) (windows : Bool) (s : Settings)
    (files : Files String UInt8) :
    ((s.update toml o (lifted change) files).1.view toml windows
        (s.update toml o (lifted change) files).2.1,
      (s.update toml o (lifted change) files).2.2.isOk) =
      (s.view toml windows files).update (fun _ => (s.update toml o (lifted change) files).2.2.isOk)
        change := by
  unfold Settings.update
  cases hpath : s.path with
  | none => simp [Settings.view, ClientAgent.Settings.update, hpath, lifted, Except.isOk, Except.toBool]
  | some path =>
    have hread : FileConfig.read toml o path files = stated toml path (files path) := by
      unfold FileConfig.read
      rw [hreads]
      rfl
    dsimp only
    rw [hread]
    cases hdisk : stated toml path (files path) with
    | error why =>
      by_cases hsame : change s.file.toFileConfig = s.file.toFileConfig
      · simp [Settings.view, ClientAgent.Settings.update, hpath, hdisk, hsame, lifted, Except.isOk,
          Except.toBool]
      · dsimp only
        rw [if_neg fun h => hsame ((lifted_eq_iff change s.file).mp h)]
        simp [Settings.view, ClientAgent.Settings.update, hpath, hdisk, hsame, lifted, Except.isOk,
          Except.toBool]
    | ok f =>
      dsimp only
      by_cases hsame : change f.toFileConfig = f.toFileConfig
      · simp [Settings.view, ClientAgent.Settings.update, hpath, hdisk, hsame, lifted, Except.isOk,
          Except.toBool]
      · rw [if_neg fun h => hsame ((lifted_eq_iff change f).mp h)]
        cases htext : toml.toStringPretty (lifted change f) with
        | error why =>
          simp [Settings.view, ClientAgent.Settings.update, hpath, hdisk, hsame, lifted, Except.isOk,
            Except.toBool]
        | ok text =>
          dsimp only
          rcases replace_spec o path text files with ⟨hok, hbytes⟩ | ⟨⟨why, herror⟩, hbytes⟩
          · have hafter : stated toml path ((replace o path text files).1 path) =
                .ok (lifted change f) := by
              rw [hbytes, stated, fromUtf8_bytesOf]
              dsimp only
              rw [hprint _ _ htext]
              rfl
            simp [Settings.view, ClientAgent.Settings.update, hpath, hdisk, hafter, hok, hsame, lifted,
              Except.isOk, Except.toBool]
          · simp [Settings.view, ClientAgent.Settings.update, hpath, hdisk, hbytes, herror, hsame,
              lifted, Except.isOk, Except.toBool]

end Layers

section Sample

/-- A file that states an autostart answer. -/
def autostartFile : FileConfig := { FileConfig.default with autostart := some true }

/-- That file, written out. -/
def autostartText : String :=
  "autostart = true\nbrowser_session = false\n\n[cache]\nrealm = \"\"\nkdcs = []\nservices = []\n"

/-- A library that knows that file alone. -/
def autostartToml : Toml where
  fromStr text := if text = autostartText then .ok autostartFile else .error "expected a key"
  toStringPretty f := if f = autostartFile then .ok autostartText else .error "unsupported"

/-- What that library prints it reads back. -/
theorem autostartToml_prints (f : FileConfig) (text : String)
    (h : autostartToml.toStringPretty f = .ok text) : autostartToml.fromStr text = .ok f := by
  unfold autostartToml at h ⊢
  dsimp only at h ⊢
  split at h
  · rename_i hf
    cases h
    rw [if_pos rfl, hf]
  · cases h

/-- An agent on a machine that policy leaves alone, whose deployment wants it started. -/
def freshSettings : Settings where
  file := .default
  policy := ⟨⟨none, none, none, none⟩, none, none⟩
  discovered := none
  defaults := some ⟨⟨some true, none⟩, none, none⟩
  path := some "/home/a/config.toml"

/-- A disk where every step works. -/
def sound : Outcomes := ⟨true, true, ⟨true, true, none, true, true, true⟩, 7⟩

/-- No file at all. -/
def noFiles : Files String UInt8 := fun _ => none

/-- After a deployment's answer was recorded, an update keeps it. -/
theorem settings_keep_autostart :
    ∃ f, onDisk autostartToml
      (run autostartToml (freshSettings, noFiles) [.enforceAutostart sound ⟨false, false, true⟩]).1
      (run autostartToml (freshSettings, noFiles) [.enforceAutostart sound ⟨false, false, true⟩]).2 =
        .ok f ∧ f.silent = none := by
  have hkeep := (settings_keep autostartToml_prints (freshSettings, noFiles)
    [.enforceAutostart sound ⟨false, false, true⟩]).2.2 FileConfig.silent
  refine hkeep ?_ .default rfl
  intro turn hturn
  rw [List.mem_singleton.mp hturn]
  intro want f
  rfl

/-- A file that is no text. -/
def garbled : Files String UInt8 := fun path =>
  if path = "/home/a/config.toml" then some [0xff] else none

/-- A deployment's answer is written to a file that was silent on it, and the layer in memory
is not what was read where nothing was read. -/
theorem default_written :
    (freshSettings.policy.autostart = none ∧ onDisk autostartToml freshSettings noFiles = .ok .default ∧
      onDisk autostartToml
        (freshSettings.enforceAutostart autostartToml sound ⟨false, false, true⟩ noFiles).1
        (freshSettings.enforceAutostart autostartToml sound ⟨false, false, true⟩ noFiles).2.1 =
          .ok autostartFile) ∧
    ¬∃ f, readBy autostartToml sound freshSettings garbled = .ok f ∧
      (freshSettings.update autostartToml sound (fun f => { f with silent := some true })
        garbled).1.file = { f with silent := some true } := by
  refine ⟨by decide, ?_⟩
  rintro ⟨f, hread, _⟩
  have hnot : (readBy autostartToml sound freshSettings garbled).toOption.isNone := by
    decide
  rw [hread] at hnot
  cases hnot

end Sample

end Kerbridge.SettingsFile

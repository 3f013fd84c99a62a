import Kerbridge.UnicodeText
import Mathlib.Data.Int.Notation

/-!
# The agent's settings

Three layers decide a setting: machine policy, the user's file, and what the network
offers. The file is shared with other processes, so that every update reads it again
before it changes it.
-/

namespace Kerbridge.ClientAgent

/-- The realm state a broker publishes. -/
structure Kerberos where
  realm : String
  kdcs : List String
  services : List String
  deriving DecidableEq

/-- No realm is known. -/
def Kerberos.unknown : Kerberos := ⟨"", [], []⟩

/-- What a deployment allows in the way of device grants. -/
structure DeviceGrantConfig where
  days : ℕ
  audience : String
  deriving DecidableEq

/-- Device grants are off. -/
def DeviceGrantConfig.off : DeviceGrantConfig := ⟨0, ""⟩

/-- Whether a deployment offers device grants. -/
def DeviceGrantConfig.enabled (g : DeviceGrantConfig) : Bool := 0 < g.days && g.audience ≠ ""

/-- What a deployment prefers where neither policy nor the user decides. -/
structure Defaults where
  autostart : Option Bool
  windowsSignIn : Option Bool
  deriving DecidableEq

/-- The device grant this machine holds, as far as it knows. -/
structure Grant where
  grantId : String
  identity : String
  /-- What the grant last worked as, once an exchange has run. -/
  principal : Option String
  audience : String
  signInRequiredBy : ℤ
  deriving DecidableEq

/-- The user's file. -/
structure FileConfig where
  brokerUrl : Option String
  grantFor : Option String
  expectedWorkingAs : Option String
  grant : Option Grant
  autostart : Option Bool
  windowsSignIn : Option Bool
  browserSession : Bool
  cache : Kerberos
  deriving DecidableEq

/-- A file that says nothing. -/
def FileConfig.empty : FileConfig := ⟨none, none, none, none, none, none, false, .unknown⟩

/-- A text without blanks around it, if anything is left of it. -/
def trimmed (text : String) : Option String :=
  if UnicodeText.trim text = "" then none else some (UnicodeText.trim text)

/-- Whom the machine authorizes itself for. -/
def FileConfig.setGrantFor (target : String) (f : FileConfig) : FileConfig :=
  { f with grantFor := trimmed target }

/-- The broker's realm state as last accepted. -/
def FileConfig.setCache (k : Kerberos) (f : FileConfig) : FileConfig := { f with cache := k }

/-- What a grant worked as. Another grant than the one named stays as it is. -/
def FileConfig.setGrantPrincipal (grantId principal : String) (f : FileConfig) : FileConfig :=
  match f.grant with
  | some g =>
    if g.grantId = grantId ∧ g.principal ≠ some principal then
      { f with grant := some { g with principal := some principal } }
    else f
  | none => f

/-- The file pointed at another broker, without what the old broker owned. -/
def FileConfig.retarget (brokerUrl : Option String) (f : FileConfig) : FileConfig :=
  { f with brokerUrl := brokerUrl, cache := .unknown, grant := none, browserSession := false }

/-- What machine policy decides. -/
structure Policy where
  brokerUrl : Option String
  grantFor : Option String
  autostart : Option Bool
  windowsSignIn : Option Bool
  deriving DecidableEq

/-- The file on disk: there is no application directory, the file does not parse, or
it holds a configuration. A missing file holds the empty one. -/
inductive Disk where
  | nowhere
  | unreadable
  | holds (file : FileConfig)
  deriving DecidableEq

/-- The layers, and the file on disk under the second. -/
structure Settings where
  file : FileConfig
  policy : Policy
  /-- The broker that DNS named. -/
  discovered : Option String
  defaults : Option Defaults
  disk : Disk
  /-- Whether the platform has a credential store of its own to ask. -/
  windows : Bool
  deriving DecidableEq

/-- Change the file as it is on disk now, and make the result this process's layer. Returns
whether the change is on disk. `written` says which contents can be written. -/
def Settings.update (written : FileConfig → Bool) (change : FileConfig → FileConfig)
    (s : Settings) : Settings × Bool :=
  match s.disk with
  | .nowhere => ({ s with file := change s.file }, false)
  | .unreadable => ({ s with file := change s.file }, change s.file = s.file)
  | .holds file =>
    if change file = file then ({ s with file := file }, true)
    else if written (change file) then
      ({ s with file := change file, disk := .holds (change file) }, true)
    else ({ s with file := change file }, false)

/-- What the file layer would answer for the broker, below policy and above DNS. -/
def Settings.brokerUrlWith (user : Option String) (s : Settings) : Option String :=
  (s.policy.brokerUrl.or user).or s.discovered

/-- The effective broker URL. -/
def Settings.brokerUrl (s : Settings) : Option String := s.brokerUrlWith s.file.brokerUrl

/-- Whether policy supplies the broker URL. -/
def Settings.brokerUrlLocked (s : Settings) : Bool := s.policy.brokerUrl.isSome

/-- Whom this machine authorizes itself for. -/
def Settings.grantFor (s : Settings) : Option String := s.policy.grantFor.or s.file.grantFor

/-- Whether policy supplies it. -/
def Settings.grantForLocked (s : Settings) : Bool := s.policy.grantFor.isSome

/-- Whether the platform's credential store is asked first. -/
def Settings.windowsSignIn (s : Settings) : Bool :=
  s.windows && (((s.policy.windowsSignIn.or s.file.windowsSignIn).or
    (s.defaults.bind Defaults.windowsSignIn)).getD true)

/-- Whether policy supplies it. -/
def Settings.windowsSignInLocked (s : Settings) : Bool := s.policy.windowsSignIn.isSome

/-- The autostart entry as the operating system has it. -/
structure AutostartEntry where
  /-- A machine-wide entry starts the agent. -/
  machineWide : Bool
  enabled : Bool
  /-- Whether the user's entry can be set. -/
  settable : Bool

/-- Make the autostart entry agree with whichever layer decides it. A deployment default is
recorded in the file, unless an answer has been recorded since. -/
def Settings.enforceAutostart (entry : AutostartEntry) (written : FileConfig → Bool)
    (s : Settings) : Settings :=
  match s.policy.autostart, s.file.autostart with
  | some _, _ => s
  | none, some _ => s
  | none, none =>
    match s.defaults.bind Defaults.autostart with
    | none => s
    | some want =>
      if entry.machineWide then s
      else if entry.enabled ≠ want ∧ ¬ entry.settable then s
      else
        (s.update written fun f => { f with autostart := some (f.autostart.getD want) }).1

section Layers

variable {written : FileConfig → Bool} {change : FileConfig → FileConfig}

/-- An update leaves every layer but the file's. -/
@[simp] theorem Settings.update_layers (s : Settings) :
    (s.update written change).1.policy = s.policy ∧
      (s.update written change).1.discovered = s.discovered ∧
      (s.update written change).1.defaults = s.defaults := by
  unfold Settings.update
  cases s.disk with
  | nowhere => exact ⟨rfl, rfl, rfl⟩
  | unreadable => exact ⟨rfl, rfl, rfl⟩
  | holds file =>
    dsimp only
    split
    · exact ⟨rfl, rfl, rfl⟩
    · split
      · exact ⟨rfl, rfl, rfl⟩
      · exact ⟨rfl, rfl, rfl⟩

end Layers

end Kerbridge.ClientAgent

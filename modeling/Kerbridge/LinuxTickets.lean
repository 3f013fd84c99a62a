import Kerbridge.FileSteps
import Kerbridge.KrbCred
import Kerbridge.UnixPath

/-!
# The ticket cache of a Linux machine

The cache is one file, which the environment names. A fresh cache replaces it whole,
and the tickets of a realm are dropped with the file that holds them.
-/

namespace Kerbridge

open UnicodeText

namespace Krbcred

/-- The form a principal is printed in. -/
def Principal.display (p : Principal) : String := "/".intercalate p.components ++ "@" ++ p.realm

/-- Whether a credential is the ticket-granting ticket of its own realm. -/
def Credential.isTgt (c : Credential) : Bool :=
  match c.server.components with
  | [service, instance_] => decide (service = "krbtgt") && decide (instance_ = c.server.realm)
  | _ => false

/-- When a credential starts, which its authentication time stands in for. -/
def Credential.start (c : Credential) : ℤ :=
  if c.starttime ≠ 0 then c.starttime.toNat else c.authtime.toNat

/-- A ticket-granting ticket, as a message and with its times. -/
structure Tgt where
  krbcred : List UInt8
  start : ℤ
  end_ : ℤ
  renewTill : ℤ

/-- The ticket-granting ticket of a cache. -/
def ccacheToTgt (ccacheBytes : List UInt8) : Except String Tgt :=
  match credentials ccacheBytes with
  | .error fault => .error (cacheFailure fault)
  | .ok creds =>
    match creds.find? Credential.isTgt with
    | none => .error "no TGT (krbtgt/...) credential found in the broker ccache"
    | some tgt => .ok ⟨krbCred tgt, tgt.start, tgt.endtime.toNat, tgt.renewTill.toNat⟩

/-- One credential as a cache holds it. -/
structure CachedCred where
  client : String
  server : String
  start : ℤ
  end_ : ℤ
  renewTill : ℤ
  isTgt : Bool
  deriving DecidableEq

/-- What a cache shows of a credential. -/
def Credential.cached (c : Credential) : CachedCred :=
  ⟨c.client.display, c.server.display, c.start, c.endtime.toNat, c.renewTill.toNat, c.isTgt⟩

/-- Every credential of a cache, in order. -/
def readCache (ccacheBytes : List UInt8) : Except String (List CachedCred) :=
  match credentials ccacheBytes with
  | .error fault => .error (cacheFailure fault)
  | .ok creds => .ok (creds.map Credential.cached)

end Krbcred

namespace LinuxTickets

open FileSteps Krbcred UnixPath

/-- What a process knows of the machine. -/
structure Machine where
  /-- What the environment says of the cache. -/
  krb5ccname : Option String
  euid : ℕ
  pid : ℕ

/-- The cache when nothing names one. -/
def defaultPath (m : Machine) : String := "/tmp/krb5cc_" ++ toString m.euid

/-- The cache, and whether the environment names it. -/
def cachePath (m : Machine) : Except String (String × Bool) :=
  match m.krb5ccname.filter (· ≠ "") with
  | none => .ok (defaultPath m, false)
  | some name =>
    let refusal := "KRB5CCNAME is \"" ++ name ++
      "\": this client writes only a FILE: credential cache. " ++
        "Set KRB5CCNAME=FILE:/path (or an absolute path) and try again."
    match splitOnce ':' name with
    | some (kind, path) => if kind = "FILE" ∧ path ≠ "" then .ok (path, true) else .error refusal
    | none => if startsWith name "/" then .ok (name, true) else .error refusal

/-- How the steps on the files of a machine go. -/
structure Outcomes where
  /-- The cache is read, where there is one. -/
  reads : Bool
  /-- The cache is removed. -/
  removes : Bool
  /-- The directory of the cache is made, or is there. -/
  makesDirectory : Bool
  /-- The cache is replaced. -/
  steps : Steps

/-- What is after the last separator. -/
def afterLast (c : Char) (s : String) : String :=
  String.ofList (s.toList.reverse.takeWhile (· != c)).reverse

/-- Whether a principal belongs to a realm. -/
def inRealm (principal realm : String) : Bool :=
  principal.toList.contains '@' && eqIgnoreAsciiCase (afterLast '@' principal) realm

/-- The credentials of the cache. One that is absent holds none. -/
def read (m : Machine) (o : Outcomes) (files : Files String UInt8) :
    Except String (List CachedCred) :=
  match cachePath m with
  | .error why => .error why
  | .ok (path, _) =>
    match files path with
    | none => .ok []
    | some bytes =>
      if !o.reads then .error ("reading " ++ path)
      else
        match readCache bytes with
        | .error why => .error ("parsing " ++ path ++ ": " ++ why)
        | .ok creds => .ok creds

/-- Drops the tickets of a realm with the cache that holds one, and counts the
credentials dropped. -/
def purgeRealm (m : Machine) (o : Outcomes) (realm : String) (files : Files String UInt8) :
    Files String UInt8 × Except String ℕ :=
  match read m o files with
  | .error why => (files, .error why)
  | .ok creds =>
    if !creds.any fun c => inRealm c.client realm then (files, .ok 0)
    else
      match cachePath m with
      | .error why => (files, .error why)
      | .ok (path, _) =>
        if o.removes then (removed true path files, .ok creds.length)
        else (files, .error ("removing " ++ path))

/-- What is said of a replacement that failed. -/
def stageText (temp path : String) : Stage → String
  | .create => "creating " ++ temp
  | .write => "writing " ++ temp
  | .flush => "flushing " ++ temp
  | .replace => "replacing " ++ path

/-- The temporary file a process writes the cache to. -/
def tempPath (m : Machine) (path : String) : String := withExtension path ("kb" ++ toString m.pid)

/-- Replaces the cache. -/
def inject (m : Machine) (o : Outcomes) (ccache : List UInt8) (files : Files String UInt8) :
    Files String UInt8 × Except String Unit :=
  match cachePath m with
  | .error why => (files, .error why)
  | .ok (path, _) =>
    match (parent path).filter fun _ => !o.makesDirectory with
    | some dir => (files, .error ("creating " ++ dir))
    | none =>
      match replaced o.steps (tempPath m path) path ccache files with
      | (files, .error stage) => (files, .error (stageText (tempPath m path) path stage))
      | (files, .ok ()) => (files, .ok ())

/-- Whether a credential is a ticket-granting ticket of a realm. -/
def isRealmTgt (realm : String) (c : CachedCred) : Bool :=
  c.isTgt && eqIgnoreAsciiCase c.server ("krbtgt/" ++ realm ++ "@" ++ realm)

end LinuxTickets

end Kerbridge

import Kerbridge.ByteReader
import Kerbridge.DeviceGrant
import Kerbridge.LossyText

/-!
# The two credential-cache readers

The issuer reads a cache to validate it, and keeps of each credential what it
validates. The client reads it to repackage it, and keeps more. Each is written out
as it stands in its own program.
-/

namespace Kerbridge

open ByteReader LossyText

/-- The one version of the format either reader accepts. -/
def cacheVersion : UInt16 := 0x0504

/-- Why a version is refused. -/
def versionRefusal (version : UInt16) : String :=
  "unsupported ccache version 0x" ++ String.ofList (DeviceGrants.hexOf 4 version.toNat) ++
    ", expected 0x0504"

/-- The sentence of a failure either reader may end in. -/
def cacheFailure : Fault → String
  | .truncated wanted position =>
    "truncated ccache: wanted " ++ toString wanted ++ " bytes at offset " ++ toString position
  | .refused why => why
  | .outOfRange => "slice index out of range"
  | .endless => "no end of the cache"

/-- The value a reader is done with, started at the front. -/
def readWhole {α : Type} (r : Reader α) (bytes : List UInt8) : Except Fault α :=
  (r bytes 0).map Prod.fst

namespace Ccache

/-- A principal, as the issuer keeps it. -/
structure Principal where
  realm : String
  components : List String
  deriving DecidableEq

/-- What the issuer keeps of a credential. -/
structure Credential where
  client : Principal
  server : Principal
  startsAt : UInt32
  expiresAt : UInt32
  renewUntil : UInt32
  flags : UInt32
  deriving DecidableEq

/-- A counted string, decoded. -/
def str : Reader String := do
  let len ← u32
  let raw ← take len.toNat
  return fromUtf8Lossy raw

/-- One principal. -/
def principal : Reader Principal := do
  let _ ← u32
  let n ← u32
  let realm ← str
  let components ← times str n.toNat
  return ⟨realm, components⟩

/-- An address or an authorization datum: its type, and its text. -/
def typed : Reader Unit := do
  let _ ← u16
  let _ ← str
  return ()

/-- One credential. -/
def credential : Reader Credential := do
  let client ← principal
  let server ← principal
  let _ ← u16
  let _ ← str
  let _ ← u32
  let startsAt ← u32
  let expiresAt ← u32
  let renewUntil ← u32
  skip 1
  let flags ← u32
  let _ ← times typed (← u32).toNat
  let _ ← times typed (← u32).toNat
  let _ ← str
  let _ ← str
  return ⟨client, server, startsAt, expiresAt, renewUntil, flags⟩

/-- A whole cache; the default principal is read and dropped. -/
def cache (size : ℕ) : Reader (List Credential) := do
  let version ← u16
  if version ≠ cacheVersion then fail (.refused (versionRefusal version))
  else
    let headerLen ← u16
    skip headerLen.toNat
    let _ ← principal
    untilEnd credential size

/-- Every credential of a cache, in order. -/
def credentials (bytes : List UInt8) : Except Fault (List Credential) :=
  readWhole (cache bytes.length) bytes

end Ccache

namespace Krbcred

/-- A principal, as the client keeps it. -/
structure Principal where
  nameType : UInt32
  realm : String
  components : List String
  deriving DecidableEq

/-- What the client keeps of a credential. -/
structure Credential where
  client : Principal
  server : Principal
  keytype : UInt16
  key : List UInt8
  authtime : UInt32
  starttime : UInt32
  endtime : UInt32
  renewTill : UInt32
  flags : UInt32
  /-- The ticket, exactly as the cache stored it. -/
  ticket : List UInt8
  deriving DecidableEq

/-- Counted bytes. -/
def bytes : Reader (List UInt8) := do
  let len ← u32
  take len.toNat

/-- A counted string, decoded. -/
def str : Reader String := do
  let raw ← bytes
  return fromUtf8Lossy raw

/-- One principal. -/
def principal : Reader Principal := do
  let nameType ← u32
  let n ← u32
  let realm ← str
  let components ← times str n.toNat
  return ⟨nameType, realm, components⟩

/-- An address or an authorization datum: its type, and its bytes. -/
def typed : Reader Unit := do
  let _ ← u16
  let _ ← bytes
  return ()

/-- One credential. -/
def credential : Reader Credential := do
  let client ← principal
  let server ← principal
  let keytype ← u16
  let key ← bytes
  let authtime ← u32
  let starttime ← u32
  let endtime ← u32
  let renewTill ← u32
  skip 1
  let flags ← u32
  let _ ← times typed (← u32).toNat
  let _ ← times typed (← u32).toNat
  let ticket ← bytes
  let _ ← bytes
  return ⟨client, server, keytype, key, authtime, starttime, endtime, renewTill, flags, ticket⟩

/-- A whole cache; the default principal is read and dropped. -/
def cache (size : ℕ) : Reader (List Credential) := do
  let version ← u16
  if version ≠ cacheVersion then fail (.refused (versionRefusal version))
  else
    let headerLen ← u16
    skip headerLen.toNat
    let _ ← principal
    untilEnd credential size

/-- Every credential of a cache, in order. -/
def credentials (bytes : List UInt8) : Except Fault (List Credential) :=
  readWhole (cache bytes.length) bytes

end Krbcred

end Kerbridge

import Kerbridge.DeviceAssertion
import Kerbridge.DeviceRequestRule
import Kerbridge.Issuerd

/-!
# The broker's device routes

Removing one device: on a browser sign-in, through the authorization rule, or on
the device's own assertion, which may name no other account and no other device.
The issuer does the write, over a socket that can fail on either side of it.
-/

namespace Kerbridge.BrokerDevices

open UnicodeText StoredIdentity DeviceGrants RealmDirectory BrokerDirectory DeviceAssertion

/-- A failure as the client sees it. -/
structure Failure where
  status : ℕ
  client : String
  deriving DecidableEq

/-- A refusal of an identity proof, whichever check failed. -/
def unauthorized : Failure := ⟨401, "invalid identity proof"⟩

/-- The two identity proofs, told apart by their scheme. -/
inductive Proof where
  | bearer (token : String)
  | deviceGrant (assertion : String)
  deriving DecidableEq

/-- The proof an `Authorization` header carries. -/
def proof (header : Option String) : Option Proof := do
  let (scheme, credential) ← splitOnce ' ' (← header)
  let credential := trim credential
  if credential.isEmpty then none
  else if eqIgnoreAsciiCase scheme "bearer" then some (.bearer credential)
  else if eqIgnoreAsciiCase scheme "devicegrant" then some (.deviceGrant credential)
  else none

/-- One source the broker serves. -/
structure SourceState where
  source : Source
  roleBaseDn : String
  /-- The adapter's check of a browser sign-in. -/
  identify : String → ℤ → Except String ExternalIdentity

/-- What the broker and the issuer of one realm are configured with. -/
structure Broker where
  sources : List SourceState
  baseDn : String
  cloudIdpOu : String
  /-- The audience a device assertion must name. -/
  audience : String
  /-- How long a grant lives, in days; the routes are off at zero. -/
  grantDays : ℕ

/-- What a request can change. -/
structure World (server : Server) where
  realm : Realm server
  nonces : Nonces

/-- How far a request to the issuer gets. -/
inductive Delivery where
  | answered
  /-- The issuer is not reached. -/
  | unsent
  /-- The issuer's write fails and changes nothing. -/
  | failed
  /-- The write is made and the answer is lost. -/
  | unanswered

/-- The state of a configured source. -/
def Broker.source (b : Broker) (name : String) : Option SourceState :=
  b.sources.find? fun s => s.source.name == name

/-- One source's view of the directory. -/
def Broker.directory (b : Broker) (src : SourceState) : Directory := ⟨b.baseDn, src.roleBaseDn⟩

/-- The issuer's configuration. -/
def Broker.issuer (b : Broker) : Issuerd.Config := ⟨b.baseDn, b.cloudIdpOu⟩

/-- Whether a text is an operator-typed grant handle. -/
def isGrantHandle (id : String) : Bool :=
  decide (id.utf8ByteSize = 8) &&
    id.toList.all fun c => c.isDigit || (decide ('a' ≤ c) && decide (c ≤ 'f')) ||
      (decide ('A' ≤ c) && decide (c ≤ 'F'))

/-- The text a denial is answered with. -/
def denial : Denied → String
  | .notFound => "identity is not provisioned"
  | .ambiguous _ => "identity is not provisioned"
  | .disabled => "account is disabled"
  | .notAdmitted => "account is not admitted to the realm"
  | .notGranted => "account may not authorize a device"
  | .notDelegate => "you may not authorize a device for that account"

/-- The status of a failed directory lookup. -/
def directoryFailure : LookupError → Failure
  | .denied why => ⟨403, denial why⟩
  | .roleMissing _ _ => ⟨502, "directory unavailable"⟩
  | .roleAmbiguous _ _ => ⟨502, "directory unavailable"⟩
  | .unavailable _ => ⟨502, "directory unavailable"⟩

/-- The status of a refused directory write: the cap keeps one of its own. -/
def grantWriteFailure (why : String) : Failure :=
  if why.toList.tails.any fun t => "cap".toList.isPrefixOf t then ⟨409, "too many devices"⟩
  else ⟨500, "directory write failed"⟩

/-- The issuer is not reached, or does not answer. -/
def issuerUnavailable : Failure := ⟨503, "issuer unavailable"⟩

/-- An identity is of the source it is presented to. -/
def sameSource (src : SourceState) (identity : ExternalIdentity) : Except Failure Unit :=
  if identity.source = src.source then .ok () else .error unauthorized

variable {server : Server} [UnicodeTables] [DeviceLibraries]

/-- The account a request acts on, and whether this caller may act on it. -/
def grantHolder (b : Broker) (src : SourceState) (r : Realm server) (now : ℤ)
    (header target : Option String) : Except Failure Authorized :=
  if b.grantDays = 0 then .error ⟨403, "device grants are not enabled"⟩
  else
    match proof header with
    | some (.bearer token) =>
      match target.mapM Target.parse with
      | .error _ => .error ⟨400, "malformed request"⟩
      | .ok target =>
        match src.identify token now with
        | .error _ => .error unauthorized
        | .ok identity => (authorize (b.directory src) r identity target).mapError directoryFailure
    | _ => .error ⟨401, "invalid identity proof"⟩

/-- Resolves a machine that removes itself. It need not be in the grant group. -/
def selfRevocation (b : Broker) (src : SourceState) (w : World server) (now : ℤ)
    (assertion id : String) (target : Option String) : Except Failure Account × World server :=
  if target.isSome then (.error ⟨400, "malformed request"⟩, w)
  else
    let (verified, nonces) := verify assertion b.audience w.nonces now
    (do
      let proof ← verified.mapError fun _ => unauthorized
      if shortId proof.thumbprint ≠ some id then
        .error ⟨403, "a device may only remove itself"⟩
      else do
        sameSource src proof.identity
        (resolve (b.directory src) w.realm proof.identity).mapError directoryFailure,
      { w with nonces := nonces })

/-- The request to the issuer, and what it leaves behind. -/
def issuerRevoke (b : Broker) (w : World server) (delivery : Delivery) (sid thumbprint : String) :
    Except Failure Unit × World server :=
  match delivery, Issuerd.revoke b.issuer w.realm sid thumbprint with
  | .answered, .ok r => (.ok (), { w with realm := r })
  | .answered, .error e => (.error (grantWriteFailure e.client), w)
  | .unanswered, .ok r => (.error issuerUnavailable, { w with realm := r })
  | .failed, .ok _ => (.error (grantWriteFailure "issuer failed"), w)
  | .failed, .error e => (.error (grantWriteFailure e.client), w)
  | _, _ => (.error issuerUnavailable, w)

/-- Removes the grant a handle names, once the account is resolved. -/
def revokeGrant (b : Broker) (delivery : Delivery) (id : String) :
    Except Failure Account × World server → Except Failure Unit × World server
  | (.error failure, w) => (.error failure, w)
  | (.ok account, w) =>
    match account.grants.find? fun g => g.shortId == id with
    | none => (.error ⟨404, "no such device"⟩, w)
    | some grant => issuerRevoke b w delivery account.sid grant.thumbprint

/-- Removes one device. -/
def revokeDevice (b : Broker) (w : World server) (now : ℤ) (delivery : Delivery)
    (source id : String) (header target : Option String) : Except Failure Unit × World server :=
  match b.source source with
  | none => (.error ⟨404, "no such source"⟩, w)
  | some src =>
    if b.grantDays = 0 then (.error ⟨403, "device grants are not enabled"⟩, w)
    else if !isGrantHandle id then (.error ⟨404, "no such device"⟩, w)
    else
      match proof header with
      | some (.deviceGrant assertion) =>
        revokeGrant b delivery id (selfRevocation b src w now assertion id target)
      | some (.bearer _) =>
        revokeGrant b delivery id
          ((grantHolder b src w.realm now header target).map Authorized.target, w)
      | none => (.error ⟨400, "malformed request"⟩, w)

end Kerbridge.BrokerDevices

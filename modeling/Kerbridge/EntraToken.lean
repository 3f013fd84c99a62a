import Kerbridge.JsonWebToken
import Kerbridge.StoredIdentity

/-!
# The Entra adapter's check of a sign-in

A bearer token is reduced to an identity once its signature holds and its claims
say what the source's policy demands.
-/

namespace Kerbridge.EntraToken

open UnicodeText StoredIdentity KeySet JsonWebToken Fallible

/-- How far two clocks may be apart, in seconds. -/
def defaultLeewaySeconds : Int64 := 300

/-- What a token is checked against. -/
structure Policy where
  tenantId : String
  /-- The one issuer this broker accepts. -/
  issuer : String
  brokerApiClientId : String
  publicClientId : String
  requiredScope : String
  leewaySeconds : Int64

/-- What the source's file says of the token. -/
structure Settings where
  tenantId : String
  issuer : String
  brokerApiClientId : String
  publicClientId : String
  scope : String

/-- The policy of a connected adapter. -/
def Settings.policy (s : Settings) : Policy :=
  ⟨s.tenantId, s.issuer, s.brokerApiClientId, s.publicClientId, s.scope, defaultLeewaySeconds⟩

/-- The claims the adapter reads. -/
structure Claims where
  iss : Option String
  aud : Option Audience
  exp : Option Int64
  nbf : Option Int64
  iat : Option Int64
  ver : Option String
  tid : Option String
  oid : Option String
  azp : Option String
  scp : Option String
  idtyp : Option String

/-- The identity of an object id, which must be in the canonical form. -/
def identity (source : Source) (oid : String) : Except IdentityError ExternalIdentity :=
  if !isGuid oid then .error (.subjectShape "a GUID in canonical lowercase form")
  else ExternalIdentity.new source oid

/-- A version as debug formatting prints it. -/
def debugVersion [UnicodeTables] : Option String → String
  | none => "None"
  | some ver => "Some(" ++ UnicodeTables.debug ver ++ ")"

/-- The claims of a token, checked against the policy. -/
def check [UnicodeTables] (source : Source) (policy : Policy) (claims : Claims) (now : Int64) :
    Except String ExternalIdentity := do
  let iss ← require "no iss" claims.iss
  let aud ← require "no aud" claims.aud
  let exp ← require "no exp" claims.exp
  let nbf ← require "no nbf" claims.nbf
  if claims.iat.isNone then .error "no iat"
  else if exp + policy.leewaySeconds < now then .error "token has expired"
  else if now + policy.leewaySeconds < nbf then .error "token is not valid yet"
  else if !aud.accepts policy.brokerApiClientId then .error "aud is not this broker"
  else do
    let tid ← require "no tid" claims.tid
    if !isGuid tid then .error "tid is not a GUID"
    else if tid ≠ policy.tenantId then .error "tid is not the configured tenant"
    else if iss ≠ policy.issuer then .error "iss is not the configured issuer"
    else if claims.ver ≠ some "2.0" then
      .error ("token version " ++ debugVersion claims.ver ++ " is not 2.0")
    else if claims.idtyp = some "app" then .error "app-only token (idtyp=app)"
    else do
      let scp ← require "no scp: not a delegated token" claims.scp
      if !(split ' ' scp).any fun s => s == policy.requiredScope then
        .error "required delegated scope missing"
      else if claims.azp ≠ some policy.publicClientId then
        .error "azp is not the authorized public client"
      else do
        let oid ← require "no oid" claims.oid
        (identity source oid).mapError fun e => "oid is not a usable subject: " ++ e.text

/-- What the libraries read claims by. -/
class ClaimsDecoder where
  decode : List UInt8 → Option Claims

variable [UnicodeTables] [TokenLibraries] [ClaimsDecoder]

/-- Verifies a bearer token and reduces it to an identity. -/
def verify (token : String) (source : Source) (policy : Policy) (keys : Keys) (fetch : Fetch)
    (now : Int64) : Except String ExternalIdentity × Keys :=
  let (claims, keys) := verifiedClaims ClaimsDecoder.decode token keys fetch
  (do check source policy (← claims) now, keys)

/-- The adapter's answer to a bearer token. -/
def identify (source : Source) (settings : Settings) (bearer : String) (keys : Keys)
    (fetch : Fetch) (now : Int64) : Except String ExternalIdentity × Keys :=
  verify bearer source settings.policy keys fetch now

/-- What the configuration demands of a token's claims, and whom they name. -/
structure Meets (settings : Settings) (claims : Claims) (now : Int64)
    (source : Source) (id : ExternalIdentity) : Prop where
  issuer : claims.iss = some settings.issuer
  audience : ∃ aud, claims.aud = some aud ∧ aud.accepts settings.brokerApiClientId = true
  party : claims.azp = some settings.publicClientId
  tenant : claims.tid = some settings.tenantId
  version : claims.ver = some "2.0"
  delegated : claims.idtyp ≠ some "app"
  scope : ∃ scp, claims.scp = some scp ∧ settings.scope ∈ split ' ' scp
  notBefore : ∃ nbf, claims.nbf = some nbf ∧ nbf.toInt ≤ now.toInt + 300
  notAfter : ∃ exp, claims.exp = some exp ∧ now.toInt ≤ exp.toInt + 300
  issuedAt : claims.iat ≠ none
  subject : claims.oid = some id.subject ∧ isGuid id.subject = true ∧ id.source = source

omit [UnicodeTables] [TokenLibraries] [ClaimsDecoder] in
/-- An identity is the one of the source and the object id. -/
theorem identity_ok {source : Source} {oid : String} {id : ExternalIdentity}
    (h : identity source oid = .ok id) :
    isGuid oid = true ∧ id.source = source ∧ id.subject = oid := by
  unfold identity at h
  rw [refuse_ok_iff] at h
  obtain ⟨hguid, hnew⟩ := h
  exact ⟨by simpa using hguid, ExternalIdentity.new_ok hnew⟩

omit [TokenLibraries] [ClaimsDecoder] in
/-- Claims that pass the check are what the configuration demands. -/
theorem check_ok {source : Source} {settings : Settings} {claims : Claims} {now : Int64}
    {id : ExternalIdentity} (h : check source settings.policy claims now = .ok id) :
    Meets settings claims now source id := by
  simp only [check, bind_ok_iff, require_ok_iff, refuse_ok_iff, mapError_ok_iff] at h
  obtain ⟨iss, hiss, aud, haud, exp, hexp, nbf, hnbf, hiat, hexpired, hearly, haccepts, tid, htid, _,
    htenant, hissuer, hver, hidtyp, scp, hscp, hscope, hazp, oid, hoid, hid⟩ := h
  obtain ⟨hguid, hsource, hsubject⟩ := identity_ok hid
  have hleeway : settings.policy.leewaySeconds.toInt = 300 := rfl
  have hlate := le_add_of_not_lt (by rw [hleeway]; omega) hexpired
  have hsoon := le_add_of_not_lt (by rw [hleeway]; omega) hearly
  rw [hleeway] at hlate hsoon
  simp only [ne_eq, not_not] at htenant hissuer hver hazp
  subst htenant hissuer hsubject
  refine ⟨hiss, ⟨aud, haud, ?_⟩, hazp, htid, hver, hidtyp, ⟨scp, hscp, ?_⟩, ⟨nbf, hnbf, hsoon⟩,
    ⟨exp, hexp, hlate⟩, ?_, hoid, hguid, hsource⟩
  · simpa [Settings.policy] using haccepts
  · simpa [Settings.policy] using hscope
  · simpa using hiat

/-- An identity the adapter returns is the one an authentic token's claims name, and
they are what the configuration demands. -/
theorem identify_ok {source : Source} {settings : Settings} {bearer : String} {keys : Keys}
    {fetch : Fetch} {now : Int64} {id : ExternalIdentity}
    (h : (identify source settings bearer keys fetch now).1 = .ok id) :
    ∃ payload claims, Authentic (identify source settings bearer keys fetch now).2 bearer payload ∧
      ClaimsDecoder.decode payload = some claims ∧ Meets settings claims now source id := by
  unfold identify verify at h ⊢
  dsimp only at h ⊢
  rw [bind_ok_iff] at h
  obtain ⟨claims, hclaims, hcheck⟩ := h
  obtain ⟨payload, hauthentic, hdecode⟩ := verifiedClaims_ok hclaims
  exact ⟨payload, claims, hauthentic, hdecode, check_ok hcheck⟩

end Kerbridge.EntraToken

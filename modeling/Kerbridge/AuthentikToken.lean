import Kerbridge.JsonWebToken
import Kerbridge.StoredIdentity

/-!
# The authentik adapter's check of a sign-in

One application's tokens: the audience, the issuer with its final slash, and the
authorised party, without which a token is an ID token.
-/

namespace Kerbridge.AuthentikToken

open UnicodeText StoredIdentity KeySet JsonWebToken Fallible

/-- How far two clocks may be apart, in seconds. -/
def leewaySeconds : Int64 := 300

/-- What a token is checked against. -/
structure Policy where
  issuer : String
  audience : String
  clientId : String
  leewaySeconds : Int64

/-- What the source's file says of the token. -/
structure Settings where
  issuer : String
  audience : String
  clientId : String

/-- The policy of a connected adapter. -/
def Settings.policy (s : Settings) : Policy :=
  ⟨s.issuer, s.audience, s.clientId, AuthentikToken.leewaySeconds⟩

/-- The claims the adapter reads. -/
structure Claims where
  iss : Option String
  aud : Option Audience
  exp : Option Int64
  nbf : Option Int64
  azp : Option String
  sub : Option String

/-- Why a subject is no UUID at all. -/
def notAUuid : String :=
  "a UUID: this provider is on the wrong subject mode -- set the OAuth2 provider's sub_mode to " ++
    "user_uuid, which is not authentik's default"

/-- Why a UUID is not in its canonical form. -/
def notCanonical : String :=
  "a UUID in canonical lowercase form: authentik serializes a user uuid with Python's str(), " ++
    "so a differently-spelled one is a change in authentik's output rather than a setting of " ++
    "yours -- nothing here normalizes it, because a transformation over a stored subject would " ++
    "become a second thing that may never change"

/-- The identity of a user's canonical UUID. -/
def identity (source : Source) (uuid : String) : Except IdentityError ExternalIdentity :=
  if !isGuid (toAsciiLowercase uuid) then .error (.subjectShape notAUuid)
  else if !isGuid uuid then .error (.subjectShape notCanonical)
  else ExternalIdentity.new source uuid

/-- The start of validity, honoured only when a token carries one. -/
def notYetValid (nbf : Option Int64) (now leeway : Int64) : Bool :=
  nbf.any fun nbf => decide (now + leeway < nbf)

/-- The claims of a token, checked against the policy. -/
def check (source : Source) (policy : Policy) (claims : Claims) (now : Int64) :
    Except String ExternalIdentity := do
  let exp ← require "no exp" claims.exp
  if exp + policy.leewaySeconds < now then .error "token has expired"
  else if notYetValid claims.nbf now policy.leewaySeconds then .error "token is not valid yet"
  else do
    let aud ← require "no aud" claims.aud
    if !aud.accepts policy.audience then .error "aud is not this application"
    else do
      let iss ← require "no iss" claims.iss
      if iss ≠ policy.issuer then .error "iss is not the configured issuer"
      else do
        let azp ← require "no azp: an ID token is not an access token" claims.azp
        if azp ≠ policy.clientId then .error "azp is not this source's client"
        else do
          let sub ← require "no sub" claims.sub
          (identity source sub).mapError fun e => "sub is not a usable subject: " ++ e.text

/-- What the libraries read claims by. -/
class ClaimsDecoder where
  decode : List UInt8 → Option Claims

variable [UnicodeTables] [TokenLibraries] [ClaimsDecoder]

/-- Verifies a bearer token and reduces it to an identity. -/
def verify (token : String) (source : Source) (policy : Policy) (keys : Keys) (fetch : Fetch)
    (now : Int64) : Except String ExternalIdentity × Keys :=
  let (claims, keys) := verifiedClaims ClaimsDecoder.decode token keys fetch
  (do check source policy (← claims) now, keys)

/-- The adapter's answer to a bearer token. -/
def identify (source : Source) (settings : Settings) (bearer : String) (keys : Keys)
    (fetch : Fetch) (now : Int64) : Except String ExternalIdentity × Keys :=
  verify bearer source settings.policy keys fetch now

/-- What the configuration demands of a token's claims, and whom they name. -/
structure Meets (settings : Settings) (claims : Claims) (now : Int64)
    (source : Source) (id : ExternalIdentity) : Prop where
  issuer : claims.iss = some settings.issuer
  audience : ∃ aud, claims.aud = some aud ∧ aud.accepts settings.audience = true
  party : claims.azp = some settings.clientId
  notBefore : ∀ nbf, claims.nbf = some nbf → nbf.toInt ≤ now.toInt + 300
  notAfter : ∃ exp, claims.exp = some exp ∧ now.toInt ≤ exp.toInt + 300
  subject : claims.sub = some id.subject ∧ isGuid id.subject = true ∧ id.source = source

omit [UnicodeTables] [TokenLibraries] [ClaimsDecoder] in
/-- An identity is the one of the source and the UUID. -/
theorem identity_ok {source : Source} {uuid : String} {id : ExternalIdentity}
    (h : identity source uuid = .ok id) :
    isGuid uuid = true ∧ id.source = source ∧ id.subject = uuid := by
  simp only [identity, refuse_ok_iff] at h
  obtain ⟨_, hguid, hnew⟩ := h
  exact ⟨by simpa using hguid, ExternalIdentity.new_ok hnew⟩

omit [UnicodeTables] [TokenLibraries] [ClaimsDecoder] in
/-- Claims that pass the check are what the configuration demands. -/
theorem check_ok {source : Source} {settings : Settings} {claims : Claims} {now : Int64}
    {id : ExternalIdentity} (h : check source settings.policy claims now = .ok id) :
    Meets settings claims now source id := by
  simp only [check, bind_ok_iff, require_ok_iff, refuse_ok_iff, mapError_ok_iff] at h
  obtain ⟨exp, hexp, hexpired, hearly, aud, haud, haccepts, iss, hiss, hissuer, azp, hazp, hparty,
    sub, hsub, hid⟩ := h
  obtain ⟨hguid, hsource, hsubject⟩ := identity_ok hid
  have hleeway : settings.policy.leewaySeconds.toInt = 300 := rfl
  have hlate := le_add_of_not_lt (by rw [hleeway]; omega) hexpired
  rw [hleeway] at hlate
  simp only [ne_eq, not_not] at hissuer hparty
  subst hissuer hparty hsubject
  refine ⟨hiss, ⟨aud, haud, ?_⟩, hazp, ?_, ⟨exp, hexp, hlate⟩, hsub, hguid, hsource⟩
  · simpa [Settings.policy] using haccepts
  · intro nbf hnbf
    simp only [notYetValid, hnbf, Option.any_some, decide_eq_true_eq] at hearly
    have hsoon := le_add_of_not_lt (by rw [hleeway]; omega) hearly
    rw [hleeway] at hsoon
    exact hsoon

/-- An identity the adapter returns is the one an authentic token's claims name, and
they are what the configuration demands. -/
theorem identify_ok {source : Source} {settings : Settings} {bearer : String} {keys : Keys}
    {fetch : Fetch} {now : Int64} {id : ExternalIdentity}
    (h : (identify source settings bearer keys fetch now).1 = .ok id) :
    ∃ payload claims, Authentic (identify source settings bearer keys fetch now).2 bearer payload ∧
      ClaimsDecoder.decode payload = some claims ∧ Meets settings claims now source id := by
  unfold identify verify at h ⊢
  dsimp only at h ⊢
  rw [bind_ok_iff] at h
  obtain ⟨claims, hclaims, hcheck⟩ := h
  obtain ⟨payload, hauthentic, hdecode⟩ := verifiedClaims_ok hclaims
  exact ⟨payload, claims, hauthentic, hdecode, check_ok hcheck⟩

end Kerbridge.AuthentikToken

import Kerbridge.Fallible
import Kerbridge.StoredIdentity

/-!
# The assertion of a granted device

A signed statement that stands in for a browser sign-in: who the client says it
is, and which key said so. Its nonce is spent on the way, its lifetime is short,
and nothing about admission is decided here.
-/

namespace Kerbridge.DeviceAssertion

open UnicodeText StoredIdentity Fallible

/-- The signed statement. -/
structure Payload where
  identity : String
  key : String
  nonce : String
  aud : String
  exp : ℤ

/-- What the verifier takes from libraries. -/
class DeviceLibraries where
  /-- Unpadded base64url, read. -/
  b64url : String → Option (List UInt8)
  /-- Unpadded base64url, written. -/
  b64urlEncode : List UInt8 → String
  /-- A JSON object with the fields of a payload. -/
  payload : List UInt8 → Option Payload
  /-- Whether a fixed-form P-256 signature of a message verifies under a key. -/
  ecdsaP256Sha256 : List UInt8 → List UInt8 → List UInt8 → Bool
  /-- The SHA-256 digest. -/
  sha256 : List UInt8 → List UInt8

/-- An uncompressed P-256 point: the tag and two coordinates. -/
def p256PointLen : ℕ := 65

/-- A fixed-form signature. -/
def p256SignatureLen : ℕ := 64

/-- How far ahead of now an assertion may claim to be valid, in seconds. -/
def maxAssertionLifetime : ℤ := 300

/-- A verified assertion. -/
structure DeviceProof where
  identity : ExternalIdentity
  thumbprint : String
  deriving DecidableEq

/-- The nonces issued and not yet spent, with their deadlines. -/
abbrev Nonces := String → Option ℤ

/-- Spends a nonce, whatever the answer is. -/
def Nonces.consume (nonces : Nonces) (nonce : String) (now : ℤ) : Bool × Nonces :=
  ((nonces nonce).any fun expiry => decide (now < expiry),
    fun n => if n = nonce then none else nonces n)

variable [DeviceLibraries]

/-- The stored form of a public key. -/
def thumbprint (key : List UInt8) : String :=
  DeviceLibraries.b64urlEncode (DeviceLibraries.sha256 key)

/-- The payload of an assertion and the key it is signed with, once the signature
over the payload text verifies. -/
def verifySignature (assertion audience : String) (now : ℤ) :
    Except String (Payload × List UInt8) :=
  match split '.' assertion with
  | [payloadText, signatureText] => do
    let bytes ← require "payload is not base64url" (DeviceLibraries.b64url payloadText)
    let payload ← require "payload is not JSON" (DeviceLibraries.payload bytes)
    if payload.aud ≠ audience then .error "aud is not this deployment"
    else if payload.exp ≤ now then .error "assertion has expired"
    else if maxAssertionLifetime < payload.exp - now then
      .error ("assertion is valid for more than " ++ toString maxAssertionLifetime ++ "s")
    else do
      let key ← require "key is not base64url" (DeviceLibraries.b64url payload.key)
      if key.length ≠ p256PointLen ∨ key.head? ≠ some 4 then
        .error ("key is not a " ++ toString p256PointLen ++ "-byte uncompressed point")
      else do
        let signature ← require "signature is not base64url" (DeviceLibraries.b64url signatureText)
        if signature.length ≠ p256SignatureLen then
          .error "signature is not fixed-form ECDSA P-256"
        else if DeviceLibraries.ecdsaP256Sha256 key (bytesOf payloadText) signature = false then
          .error "signature does not verify"
        else return (payload, key)
  | _ => .error "not a two-part device assertion"

/-- Verifies an assertion and spends its nonce. The signature is checked first. -/
def verify (assertion audience : String) (nonces : Nonces) (now : ℤ) :
    Except String DeviceProof × Nonces :=
  match verifySignature assertion audience now with
  | .error why => (.error why, nonces)
  | .ok (payload, key) =>
    let (spent, nonces) := nonces.consume payload.nonce now
    if !spent then (.error "nonce is unknown, expired or already spent", nonces)
    else
      match ExternalIdentity.decode payload.identity with
      | .error e => (.error ("claimed identity does not decode: " ++ e.text), nonces)
      | .ok identity => (.ok ⟨identity, thumbprint key⟩, nonces)

/-- A key signed an assertion that claims an identity. -/
def Signed (assertion : String) (key : List UInt8) (identity : ExternalIdentity) : Prop :=
  ∃ payloadText signatureText bytes payload signature,
    split '.' assertion = [payloadText, signatureText] ∧
    DeviceLibraries.b64url payloadText = some bytes ∧
    DeviceLibraries.payload bytes = some payload ∧
    DeviceLibraries.b64url payload.key = some key ∧
    DeviceLibraries.b64url signatureText = some signature ∧
    DeviceLibraries.ecdsaP256Sha256 key (bytesOf payloadText) signature = true ∧
    ExternalIdentity.decode payload.identity = .ok identity

/-- What a signature check that passes has seen: the key signed the payload text,
for this deployment, and the assertion has not expired. -/
theorem verifySignature_ok {assertion audience : String} {now : ℤ} {payload : Payload}
    {key : List UInt8} (h : verifySignature assertion audience now = .ok (payload, key)) :
    payload.aud = audience ∧ now < payload.exp ∧
      ∀ identity, ExternalIdentity.decode payload.identity = .ok identity →
        Signed assertion key identity := by
  unfold verifySignature at h
  split at h
  · rename_i payloadText signatureText hsplit
    simp only [bind_ok_iff, refuse_ok_iff, require_ok_iff, Bool.not_eq_false] at h
    obtain ⟨bytes, hbytes, p, hp, haud, hexp, _, k, hk, _, signature, hs, _, hsig, hpair⟩ := h
    cases hpair
    refine ⟨not_not.mp haud, by omega, ?_⟩
    intro identity hid
    exact ⟨payloadText, signatureText, bytes, payload, signature, hsplit, hbytes, hp, hk, hs,
      hsig, hid⟩
  · cases h

/-- An assertion that verifies is signed by the key whose thumbprint is returned,
and claims the identity that is returned. -/
theorem verify_ok {assertion audience : String} {nonces : Nonces} {now : ℤ}
    {proof : DeviceProof} (h : (verify assertion audience nonces now).1 = .ok proof) :
    ∃ key, Signed assertion key proof.identity ∧ proof.thumbprint = thumbprint key := by
  unfold verify at h
  cases hv : verifySignature assertion audience now with
  | error why => simp [hv] at h
  | ok signed =>
    obtain ⟨payload, key⟩ := signed
    simp only [hv] at h
    split at h
    · cases h
    · cases hid : ExternalIdentity.decode payload.identity with
      | error e => simp [hid] at h
      | ok identity =>
        simp only [hid, Except.ok.injEq] at h
        subst h
        exact ⟨key, (verifySignature_ok hv).2.2 identity hid, rfl⟩

/-- One assertion is signed by one key and claims one identity. -/
theorem Signed.unique {assertion : String} {key key' : List UInt8}
    {identity identity' : ExternalIdentity} (h : Signed assertion key identity)
    (h' : Signed assertion key' identity') : key = key' ∧ identity = identity' := by
  obtain ⟨_, _, _, _, _, hsplit, hbytes, hp, hk, _, _, hid⟩ := h
  obtain ⟨_, _, _, _, _, hsplit', hbytes', hp', hk', _, _, hid'⟩ := h'
  obtain ⟨rfl, rfl⟩ : _ ∧ _ := by simpa [hsplit] using hsplit'
  rw [hbytes] at hbytes'
  cases hbytes'
  rw [hp] at hp'
  cases hp'
  rw [hk] at hk'
  rw [hid] at hid'
  exact ⟨Option.some.inj hk', Except.ok.inj hid'⟩

end Kerbridge.DeviceAssertion

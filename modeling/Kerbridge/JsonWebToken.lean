import Kerbridge.KeySet

/-!
# The one signature check of a token

Structure, the algorithm table, the key and the signature over the exact bytes
presented, all before a claim is read.
-/

namespace Kerbridge.JsonWebToken

open UnicodeText KeySet Fallible

/-- The audience of a token: one string, or several. -/
inductive Audience where
  | one (a : String)
  | many (all : List String)
  deriving DecidableEq

/-- Whether an audience names one. -/
def Audience.accepts (aud : Audience) (want : String) : Bool :=
  match aud with
  | .one a => a == want
  | .many all => all.any fun a => a == want

/-- A token taken apart, before any key is looked up. -/
structure Presented where
  alg : String
  kid : String
  primitive : Primitive
  /-- The bytes the signature is over. -/
  signed : List UInt8
  signature : List UInt8
  /-- The text of the claims. -/
  claims : String

/-- A component without its leading zeros. -/
def trimLeadingZeros (bytes : List UInt8) : List UInt8 := bytes.dropWhile (· == 0)

/-- Where a sum of times, which may wrap, is not before a time, the true sum is not
before it either. -/
theorem le_add_of_not_lt {a leeway b : Int64} (hleeway : 0 ≤ leeway.toInt)
    (h : ¬ a + leeway < b) : b.toInt ≤ a.toInt + leeway.toInt := by
  rw [Int64.lt_iff_toInt_lt, Int64.toInt_add, Int.bmod] at h
  have ha := a.le_toInt
  have ha' := a.toInt_lt
  have hl := leeway.toInt_lt
  have hb := b.le_toInt
  have hb' := b.toInt_lt
  split at h
  · omega
  · omega

variable [UnicodeTables] [TokenLibraries]

/-- The structure of a token, its algorithm, and the bytes that are signed. -/
def present (token : String) : Except String Presented :=
  match split '.' token with
  | [headerText, claimsText, signatureText] => do
    let bytes ← require "header is not base64url" (TokenLibraries.b64url headerText)
    let header ← require "header is not JSON" (TokenLibraries.header bytes)
    let primitive ← require ("disallowed alg " ++ UnicodeTables.debug header.alg)
      (algorithm header.alg)
    let kid ← require "header carries no kid" header.kid
    let signature ← require "signature is not base64url" (TokenLibraries.b64url signatureText)
    let signedLen := headerText.utf8ByteSize + 1 + claimsText.utf8ByteSize
    return ⟨header.alg, kid, primitive, (bytesOf token).take signedLen, signature, claimsText⟩
  | _ => .error "not a three-part JWT"

/-- The one verification routine. -/
def verifyRsa (key : RsaKey) (primitive : Primitive) (signed signature : List UInt8) : Bool :=
  TokenLibraries.rsa primitive (trimLeadingZeros key.modulus) (trimLeadingZeros key.exponent)
    signed signature

/-- The claims of a token whose signature holds, and the keys afterwards. -/
def verifiedClaims {Claims : Type} (decode : List UInt8 → Option Claims) (token : String)
    (keys : Keys) (fetch : Fetch) : Except String Claims × Keys :=
  match present token with
  | .error why => (.error why, keys)
  | .ok p =>
    let (key, keys) := keys.withKey fetch p.kid
    (do
      let key ← require ("unknown kid " ++ UnicodeTables.debug p.kid) key
      if key.pins p.alg then
        .error ("key " ++ UnicodeTables.debug p.kid ++ " is not published for alg " ++
          UnicodeTables.debug p.alg)
      else if verifyRsa key p.primitive p.signed p.signature = false then
        .error "signature does not verify"
      else do
        let bytes ← require "claims are not base64url" (TokenLibraries.b64url p.claims)
        require "claims are not JSON" (decode bytes),
      keys)

/-- A payload is the one a token carries, under a signature over exactly the presented
header and claims, by an allowed algorithm, with the only key of the header's name in
the document in use, which is published for no other algorithm. -/
def Authentic (keys : Keys) (token : String) (payload : List UInt8) : Prop :=
  ∃ headerText claimsText signatureText headerBytes header primitive kid entries entry key
      signature,
    token = headerText ++ "." ++ claimsText ++ "." ++ signatureText ∧
    (TokenLibraries.b64url headerText = some headerBytes ∧
      TokenLibraries.header headerBytes = some header ∧
      algorithm header.alg = some primitive ∧ header.kid = some kid) ∧
    (TokenLibraries.jwksDocument keys.document = some entries ∧
      entries.filter (fun entry => entry.selects kid) = [entry] ∧ entry.key = some key ∧
      (key.alg = none ∨ key.alg = some header.alg)) ∧
    (TokenLibraries.b64url signatureText = some signature ∧
      TokenLibraries.rsa primitive (trimLeadingZeros key.modulus) (trimLeadingZeros key.exponent)
        (bytesOf (headerText ++ "." ++ claimsText)) signature = true) ∧
    TokenLibraries.b64url claimsText = some payload

omit [UnicodeTables] [TokenLibraries] in
/-- A text of three parts is the parts with the separator between them. -/
theorem eq_of_split {token a b c : String} (h : split '.' token = [a, b, c]) :
    token = a ++ "." ++ b ++ "." ++ c := by
  unfold split at h
  have hjoin : ['.'].intercalate (token.toList.splitOn '.') = token.toList :=
    List.intercalate_splitOn '.'
  obtain ⟨x, y, z, hparts⟩ : ∃ x y z, token.toList.splitOn '.' = [x, y, z] := by
    have hlen := congrArg List.length h
    rw [List.length_map] at hlen
    exact List.length_eq_three.mp hlen
  rw [hparts] at h hjoin
  simp only [List.map_cons, List.map_nil, List.cons.injEq, and_true] at h
  obtain ⟨rfl, rfl, rfl⟩ := h
  apply String.toList_injective
  rw [← hjoin]
  simp [List.intercalate, List.intersperse, String.toList_append]

/-- The claims that are read are decoded from the payload of an authentic token. -/
theorem verifiedClaims_ok {Claims : Type} {decode : List UInt8 → Option Claims} {token : String}
    {keys : Keys} {fetch : Fetch} {claims : Claims}
    (h : (verifiedClaims decode token keys fetch).1 = .ok claims) :
    ∃ payload, Authentic (verifiedClaims decode token keys fetch).2 token payload ∧
      decode payload = some claims := by
  unfold verifiedClaims at h ⊢
  cases hp : present token with
  | error why => simp [hp] at h
  | ok p =>
    simp only [hp, bind_ok_iff, require_ok_iff, refuse_ok_iff, Bool.not_eq_true,
      Bool.not_eq_false] at h
    obtain ⟨key, hkey, hpins, hverify, payload, hpayload, hclaims⟩ := h
    refine ⟨payload, ?_, hclaims⟩
    have hlookup := Keys.withKey_ok hkey
    obtain ⟨entries, entry, hdoc, hsole, hpublished⟩ :=
      parse_ok (keys.withKey fetch p.kid).2.parsed hlookup
    unfold present at hp
    split at hp
    · rename_i headerText claimsText signatureText hsplit
      simp only [bind_ok_iff, require_ok_iff] at hp
      obtain ⟨headerBytes, hbytes, header, hheader, primitive, halg, kid, hkid, signature, hsig,
        hfields⟩ := hp
      cases hfields
      have htoken := eq_of_split hsplit
      have hsigned : (bytesOf token).take
          (headerText.utf8ByteSize + 1 + claimsText.utf8ByteSize) =
          bytesOf (headerText ++ "." ++ claimsText) := by
        have hlen : (bytesOf (headerText ++ "." ++ claimsText)).length =
            headerText.utf8ByteSize + 1 + claimsText.utf8ByteSize := by
          rw [bytesOf_length, String.utf8ByteSize_append, String.utf8ByteSize_append]
          rfl
        rw [htoken, String.append_assoc, bytesOf_append, ← hlen, List.take_left]
      have hpublishedFor : key.alg = none ∨ key.alg = some header.alg := by
        cases ha : key.alg with
        | none => exact Or.inl rfl
        | some a =>
          right
          simpa [RsaKey.pins, ha] using hpins
      have hrsa : TokenLibraries.rsa primitive (trimLeadingZeros key.modulus)
          (trimLeadingZeros key.exponent) (bytesOf (headerText ++ "." ++ claimsText)) signature =
            true := by
        rw [← hsigned]
        exact hverify
      exact ⟨headerText, claimsText, signatureText, headerBytes, header, primitive, kid, entries,
        entry, key, signature, htoken, ⟨hbytes, hheader, halg, hkid⟩,
        ⟨hdoc, hsole, hpublished, hpublishedFor⟩, ⟨hsig, hrsa⟩, hpayload⟩
    · cases hp

end Kerbridge.JsonWebToken

import Kerbridge.AuthentikToken
import Kerbridge.EntraToken

/-!
# What an accepted sign-in is

Whichever adapter accepts a token, its signature holds under the one key its header
names, its claims say what the adapter is configured to demand, and the identity is
the one those claims name.
-/

namespace Kerbridge.TokenAcceptance

open UnicodeText StoredIdentity KeySet JsonWebToken

section Adapters

variable [UnicodeTables] [TokenLibraries] [EntraToken.ClaimsDecoder]
  [AuthentikToken.ClaimsDecoder]

/-- An accepted token is authentic against the keys in use, its claims are what the
adapter's configuration demands, and the identity is the one they name. -/
theorem accepted_sound (source : Source) (bearer : String) (keys : Keys) (fetch : Fetch)
    (now : Int64) :
    (∀ settings id, (EntraToken.identify source settings bearer keys fetch now).1 = .ok id →
      ∃ payload claims,
        Authentic (EntraToken.identify source settings bearer keys fetch now).2 bearer payload ∧
        EntraToken.ClaimsDecoder.decode payload = some claims ∧
        EntraToken.Meets settings claims now source id) ∧
    ∀ settings id, (AuthentikToken.identify source settings bearer keys fetch now).1 = .ok id →
      ∃ payload claims,
        Authentic (AuthentikToken.identify source settings bearer keys fetch now).2 bearer
          payload ∧
        AuthentikToken.ClaimsDecoder.decode payload = some claims ∧
        AuthentikToken.Meets settings claims now source id := by
  constructor
  · intro settings id h
    exact EntraToken.identify_ok h
  · intro settings id h
    exact AuthentikToken.identify_ok h

end Adapters

section Sample

/-- The libraries on one token, its texts cut down to a letter each. -/
@[reducible] def sampleLibraries : TokenLibraries where
  b64url text := [("h", [1]), ("c", [2]), ("s", [3]), ("n", [5]), ("e", [7])].lookup text
  jwksDocument body :=
    if body = "d" then some [⟨"RSA", some "k", none, some "RS256", some "n", some "e"⟩] else none
  header bytes := if bytes = [1] then some ⟨"RS256", some "k"⟩ else none
  rsa primitive modulus exponent message signature :=
    decide (primitive = .pkcs1Sha256 ∧ modulus = [5] ∧ exponent = [7] ∧
      message = bytesOf "h.c" ∧ signature = [3])

/-- An object id. -/
def sampleId : String := "00000000-0000-0000-0000-00000000000a"

/-- The claims of one Entra token. -/
@[reducible] def sampleEntraDecoder : EntraToken.ClaimsDecoder where
  decode bytes :=
    if bytes = [2] then
      some ⟨some "i", some (.many ["a", "b"]), some 60, some 0, some 0, some "2.0",
        some sampleId, some sampleId, some "p", some "openid use", none⟩
    else none

/-- The claims of one authentik token. -/
@[reducible] def sampleAuthentikDecoder : AuthentikToken.ClaimsDecoder where
  decode bytes :=
    if bytes = [2] then some ⟨some "i", some (.one "b"), some 60, none, some "p", some sampleId⟩
    else none

/-- The keys of one document. -/
def sampleKeys : @Keys asciiTables sampleLibraries :=
  @Keys.mk asciiTables sampleLibraries "d" [("k", ⟨[5], [7], some "RS256"⟩)] (by decide)
    0 0 0

/-- A source. -/
def sampleSource : Source := ⟨"idp", by decide⟩

/-- The identity both tokens name. -/
def sampleIdentity : ExternalIdentity := ⟨sampleSource, sampleId, by decide, by decide⟩

/-- The Entra adapter's answer to the token. -/
def sampleEntra : Except String ExternalIdentity × @Keys asciiTables sampleLibraries :=
  @EntraToken.identify asciiTables sampleLibraries sampleEntraDecoder sampleSource
    ⟨sampleId, "i", "b", "p", "use"⟩ "h.c.s" sampleKeys ⟨0, none, 0⟩ 30

/-- The authentik adapter's answer to the token. -/
def sampleAuthentik : Except String ExternalIdentity × @Keys asciiTables sampleLibraries :=
  @AuthentikToken.identify asciiTables sampleLibraries sampleAuthentikDecoder sampleSource
    ⟨"i", "b", "p"⟩ "h.c.s" sampleKeys ⟨0, none, 0⟩ 30

/-- Both adapters accept the token, so what they accept is as it must be. -/
theorem accepted_sound_sample :
    (sampleEntra.1 = .ok sampleIdentity ∧
      ∃ payload claims, @Authentic asciiTables sampleLibraries sampleEntra.2 "h.c.s" payload ∧
        sampleEntraDecoder.decode payload = some claims ∧
        EntraToken.Meets ⟨sampleId, "i", "b", "p", "use"⟩ claims 30 sampleSource sampleIdentity) ∧
    sampleAuthentik.1 = .ok sampleIdentity ∧
      ∃ payload claims, @Authentic asciiTables sampleLibraries sampleAuthentik.2 "h.c.s" payload ∧
        sampleAuthentikDecoder.decode payload = some claims ∧
        AuthentikToken.Meets ⟨"i", "b", "p"⟩ claims 30 sampleSource sampleIdentity := by
  have hentra : sampleEntra.1 = .ok sampleIdentity := by decide
  have hauthentik : sampleAuthentik.1 = .ok sampleIdentity := by decide
  have hsound := @accepted_sound asciiTables sampleLibraries sampleEntraDecoder
    sampleAuthentikDecoder sampleSource "h.c.s" sampleKeys ⟨0, none, 0⟩ 30
  exact ⟨⟨hentra, hsound.1 _ _ hentra⟩, hauthentik, hsound.2 _ _ hauthentik⟩

end Sample

end Kerbridge.TokenAcceptance

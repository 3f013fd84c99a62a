import Kerbridge.Fallible
import Kerbridge.UnicodeText

/-!
# The signing keys a verifier trusts

A token only names a key; the document the keys come from is configuration. The
document is read whole or refused, an entry that could never be selected is
dropped, and two usable keys under one name are refused. A key that is not known
may trigger one refresh, which is limited in rate.
-/

namespace Kerbridge.KeySet

open UnicodeText Fallible

/-- The verification routines there are, all of them RSA. -/
inductive Primitive where
  | pkcs1Sha256
  | pkcs1Sha384
  | pkcs1Sha512
  | pssSha256
  | pssSha384
  | pssSha512
  deriving DecidableEq

/-- The one table of algorithms. -/
def algorithms : List (String × Primitive) :=
  [("RS256", .pkcs1Sha256), ("RS384", .pkcs1Sha384), ("RS512", .pkcs1Sha512),
    ("PS256", .pssSha256), ("PS384", .pssSha384), ("PS512", .pssSha512)]

/-- The routine of a name the table lists. -/
def algorithm (alg : String) : Option Primitive := algorithms.lookup alg

/-- One entry of a key document. -/
structure JwkEntry where
  kty : String
  kid : Option String
  use : Option String
  alg : Option String
  n : Option String
  e : Option String

/-- The header of a token. -/
structure Header where
  alg : String
  kid : Option String

/-- What the verifier takes from libraries. -/
class TokenLibraries where
  /-- Unpadded base64url, read. -/
  b64url : String → Option (List UInt8)
  /-- A JSON key document. -/
  jwksDocument : String → Option (List JwkEntry)
  /-- A JSON token header. -/
  header : List UInt8 → Option Header
  /-- Whether a signature of a message verifies under a modulus and an exponent. -/
  rsa : Primitive → List UInt8 → List UInt8 → List UInt8 → List UInt8 → Bool

/-- One signing key. -/
structure RsaKey where
  modulus : List UInt8
  exponent : List UInt8
  /-- The algorithm it is published for. -/
  alg : Option String
  deriving DecidableEq

/-- Whether a key is published for another algorithm than the given one. -/
def RsaKey.pins (key : RsaKey) (alg : String) : Bool := key.alg.any fun published => published != alg

/-- An entry that a token naming its key could select. -/
def JwkEntry.selects (entry : JwkEntry) (kid : String) : Bool :=
  entry.kty == "RSA" && entry.use.getD "sig" == "sig" &&
    entry.alg.all (fun a => (algorithm a).isSome) &&
      entry.kid == some kid && entry.n.isSome && entry.e.isSome

variable [UnicodeTables] [TokenLibraries]

/-- The key an entry publishes. -/
def JwkEntry.key (entry : JwkEntry) : Option RsaKey := do
  let modulus ← TokenLibraries.b64url (← entry.n)
  let exponent ← TokenLibraries.b64url (← entry.e)
  return ⟨modulus, exponent, entry.alg⟩

/-- The loop of `parse`. The keys so far stand under distinct names. -/
def parseLoop (out : List (String × RsaKey)) :
    List JwkEntry → Except String (List (String × RsaKey))
  | [] => .ok out
  | entry :: rest =>
    if entry.kty ≠ "RSA" ∨ entry.use.getD "sig" ≠ "sig" then parseLoop out rest
    else if entry.alg.any fun a => (algorithm a).isNone then parseLoop out rest
    else
      match entry.kid, entry.n, entry.e with
      | some kid, some n, some e => do
        let modulus ← require "JWKS modulus is not base64url" (TokenLibraries.b64url n)
        let exponent ← require "JWKS exponent is not base64url" (TokenLibraries.b64url e)
        if (out.lookup kid).isSome then
          .error ("JWKS document publishes two usable keys under kid " ++ UnicodeTables.debug kid)
        else parseLoop (out ++ [(kid, ⟨modulus, exponent, entry.alg⟩)]) rest
      | _, _, _ => parseLoop out rest

/-- A key document as keys under their names. -/
def parse (body : String) : Except String (List (String × RsaKey)) := do
  let entries ← require "parsing JWKS document" (TokenLibraries.jwksDocument body)
  let out ← parseLoop [] entries
  if out.isEmpty then
    .error "JWKS document contains no signing key this build can verify with"
  else return out

/-- How old cached keys may be before a refresh is asked for, in seconds. -/
def maxAge : ℕ := 24 * 60 * 60

/-- Between two refreshes. -/
def minRefreshInterval : ℕ := 5 * 60

/-- After a first failed refresh. -/
def failedRefreshInterval : ℕ := 15

/-- The keys in use: those of the last document that was read. -/
structure Keys where
  document : String
  byKid : List (String × RsaKey)
  parsed : parse document = .ok byKid
  fetchedAt : ℕ
  retryAfter : ℕ
  consecutiveFailures : ℕ

/-- One attempt to fetch the document: when it starts, what it brings, when it ends. -/
structure Fetch where
  start : ℕ
  body : Option String
  done : ℕ

/-- How long to wait after failures in a row. -/
def failureBackoff (consecutiveFailures : ℕ) : ℕ :=
  min (failedRefreshInterval * (1 <<< min (consecutiveFailures - 1) 5)) minRefreshInterval

/-- A failed refresh keeps the keys. -/
def Keys.failed (keys : Keys) (fetch : Fetch) : Keys :=
  let failures := min (keys.consecutiveFailures + 1) 0xFFFFFFFF
  { keys with
    consecutiveFailures := failures
    retryAfter := fetch.done + failureBackoff failures }

/-- A refresh, when one is due. -/
def Keys.refresh (keys : Keys) (fetch : Fetch) : Keys :=
  if fetch.start < keys.retryAfter then keys
  else
    match fetch.body with
    | none => keys.failed fetch
    | some body =>
      match h : parse body with
      | .error _ => keys.failed fetch
      | .ok fresh => ⟨body, fresh, h, fetch.done, fetch.done + minRefreshInterval, 0⟩

/-- The key of a name, and the keys afterwards. -/
def Keys.withKey (keys : Keys) (fetch : Fetch) (kid : String) : Option RsaKey × Keys :=
  match keys.byKid.lookup kid, decide (fetch.start - keys.fetchedAt < maxAge) with
  | some key, true => (some key, keys)
  | _, _ =>
    let keys := keys.refresh fetch
    (keys.byKid.lookup kid, keys)

/-- A key the loop ends with was there, or is published by the one entry of its name. -/
theorem parseLoop_ok {entries : List JwkEntry} {out map : List (String × RsaKey)} {kid : String}
    {key : RsaKey} (h : parseLoop out entries = .ok map) (hkey : map.lookup kid = some key) :
    (out.lookup kid = some key ∧ entries.filter (fun entry => entry.selects kid) = []) ∨
      out.lookup kid = none ∧ ∃ entry, entries.filter (fun entry => entry.selects kid) = [entry] ∧
        entry.key = some key := by
  induction entries generalizing out with
  | nil =>
    cases h
    exact Or.inl ⟨hkey, rfl⟩
  | cons entry rest ih =>
    have hskip : entry.selects kid = false → parseLoop out rest = .ok map →
        (out.lookup kid = some key ∧
          (entry :: rest).filter (fun entry => entry.selects kid) = []) ∨
        out.lookup kid = none ∧ ∃ o,
          (entry :: rest).filter (fun entry => entry.selects kid) = [o] ∧ o.key = some key := by
      intro hno hrest
      rw [List.filter_cons_of_neg (by simp [hno])]
      exact ih hrest
    unfold parseLoop at h
    split at h
    · rename_i hkind
      apply hskip _ h
      rcases hkind with hkty | huse
      · simp [JwkEntry.selects, hkty]
      · simp [JwkEntry.selects, huse]
    · rename_i hkind
      split at h
      · rename_i halg
        apply hskip _ h
        cases ha : entry.alg with
        | none => simp [ha] at halg
        | some a =>
          simp only [ha, Option.any_some, Option.isNone_iff_eq_none] at halg
          simp [JwkEntry.selects, ha, halg]
      · rename_i halg
        split at h
        · rename_i kid' n e hkid hn he
          simp only [bind_ok_iff, require_ok_iff, refuse_ok_iff] at h
          obtain ⟨modulus, hmodulus, exponent, hexponent, hfresh, hrest⟩ := h
          have hpublished : entry.key = some ⟨modulus, exponent, entry.alg⟩ := by
            simp [JwkEntry.key, hn, he, hmodulus, hexponent]
          by_cases hsame : kid' = kid
          · subst hsame
            have hselects : entry.selects kid' = true := by
              simp only [not_or, ne_eq, not_not] at hkind
              have hall : entry.alg.all (fun a => (algorithm a).isSome) = true := by
                cases ha : entry.alg with
                | none => rfl
                | some a =>
                  simp only [ha, Option.any_some, Bool.not_eq_true] at halg
                  simpa [Option.isSome_iff_ne_none, Option.isNone_iff_eq_none] using halg
              simp [JwkEntry.selects, hkind.1, hkind.2, hall, hkid, hn, he]
            have hnone : out.lookup kid' = none := Option.not_isSome_iff_eq_none.mp hfresh
            right
            refine ⟨hnone, entry, ?_, ?_⟩
            · rcases ih hrest with ⟨_, hempty⟩ | ⟨habsent, _⟩
              · simp [hselects, hempty]
              · simp [List.lookup_append, hnone] at habsent
            · rcases ih hrest with ⟨hthere, _⟩ | ⟨habsent, _⟩
              · simp only [List.lookup_append, hnone, Option.none_or] at hthere
                simp only [List.lookup_cons, beq_self_eq_true] at hthere
                rw [hpublished, ← hthere]
              · simp [List.lookup_append, hnone] at habsent
          · have hno : entry.selects kid = false := by
              simp [JwkEntry.selects, hkid, hsame]
            have hlookup : (out ++ [(kid', (⟨modulus, exponent, entry.alg⟩ : RsaKey))]).lookup kid =
                out.lookup kid := by
              have hne : (kid == kid') = false := by
                simpa using fun heq : kid = kid' => hsame heq.symm
              simp [List.lookup_append, List.lookup_cons, hne]
            rw [List.filter_cons_of_neg (by simp [hno])]
            rw [← hlookup]
            exact ih hrest
        · rename_i hmissing
          apply hskip _ h
          cases hk : entry.kid with
          | none => simp [JwkEntry.selects, hk]
          | some k =>
            cases hn : entry.n with
            | none => simp [JwkEntry.selects, hn]
            | some n =>
              cases he : entry.e with
              | none => simp [JwkEntry.selects, he]
              | some e => exact absurd he (hmissing k n e hk hn)

/-- The key of a name is the one the document's only selectable entry of it publishes. -/
theorem parse_ok {body : String} {map : List (String × RsaKey)} {kid : String} {key : RsaKey}
    (h : parse body = .ok map) (hkey : map.lookup kid = some key) :
    ∃ entries entry, TokenLibraries.jwksDocument body = some entries ∧
      entries.filter (fun entry => entry.selects kid) = [entry] ∧ entry.key = some key := by
  unfold parse at h
  simp only [bind_ok_iff, require_ok_iff, refuse_ok_iff] at h
  obtain ⟨entries, hdoc, out, hloop, _, hout⟩ := h
  cases hout
  rcases parseLoop_ok hloop hkey with ⟨hthere, _⟩ | ⟨_, entry, hsole, hpublished⟩
  · cases hthere
  · exact ⟨entries, entry, hdoc, hsole, hpublished⟩

/-- A key that is handed out is the one of its name in the document in use. -/
theorem Keys.withKey_ok {keys : Keys} {fetch : Fetch} {kid : String} {key : RsaKey}
    (h : (keys.withKey fetch kid).1 = some key) :
    (keys.withKey fetch kid).2.byKid.lookup kid = some key := by
  unfold Keys.withKey at h ⊢
  split at h
  · rename_i hkey _
    rw [hkey]
    exact h
  · exact h

end Kerbridge.KeySet

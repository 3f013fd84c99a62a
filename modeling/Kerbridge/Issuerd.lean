import Kerbridge.DeviceGrant
import Kerbridge.DistinguishedName
import Kerbridge.Fallible
import Kerbridge.RealmDirectory
import Kerbridge.RealmState
import Kerbridge.SamName

/-!
# The issuer's grant verbs

The issuer finds the account by its security identifier, refuses everything that
is not an ordinary live synchronised person, and then changes values of one
attribute of that one object.
-/

namespace Kerbridge.Issuerd

open UnicodeText StoredIdentity DeviceGrants DistinguishedName RealmDirectory RealmState
  Fallible

/-- What the issuer is configured with. -/
structure Config where
  baseDn : String
  /-- The unit an account must be inside for anything to be written to it. -/
  cloudIdpOu : String

/-- The category of a refusal, as it crosses the socket. -/
inductive IssueError where
  | badRequest
  | unknownAccount
  | notEligible
  deriving DecidableEq

/-- The text a caller is told. -/
def IssueError.client : IssueError → String
  | .badRequest => "bad request"
  | .unknownAccount => "unknown account"
  | .notEligible => "account not eligible"

/-- The account a verb names. -/
structure Account where
  dn : String
  samAccountName : String
  /-- State markers and device grants, in the order the directory returned them. -/
  markers : List String
  deriving DecidableEq

/-- One account and the grants it carries, each with the value it is stored as. -/
structure Target where
  account : Account
  grants : List (String × DeviceGrant)
  deriving DecidableEq

/-- The flags of a machine account. -/
def uacMachine : ℕ := 0x0800 ||| 0x1000 ||| 0x2000

/-- The classes a synchronised person may carry. -/
def eligibleClasses : List String := ["top", "person", "organizationalperson", "user"]

/-- A security identifier as text: decimal fields and nothing else. -/
def validatedSid (sid : String) : Except IssueError String :=
  match stripPrefix sid "S-1-" with
  | none => .error .badRequest
  | some rest =>
    if 189 < sid.utf8ByteSize ∨ rest.isEmpty = true then .error .badRequest
    else if !(split '-' rest).all fun f => !f.isEmpty && f.toList.all Char.isDigit then
      .error .badRequest
    else .ok sid

/-- The first value of an attribute. -/
def first (e : Entry) (attr : String) : Option String := (e.attrs attr).head?

/-- A change to the values of one attribute of one object: a value to delete is
named byte for byte. -/
def changed (delete add : List String) (e : Entry) : Entry where
  dn := e.dn
  attrs := fun name =>
    if name = "extensionName" then
      (e.attrs name).filter (fun v => !delete.contains v) ++ add
    else e.attrs name
  binAttrs := e.binAttrs

variable {server : Server}

/-- One delete-then-add against the object of a name. -/
def modify (r : Realm server) (dn : String) (delete add : List String) : Realm server where
  entries := r.entries.map fun e =>
    if server.sameDn e.dn dn then changed delete add e else e
  distinct := by
    rw [List.pairwise_map]
    apply r.distinct.imp
    intro a b hab
    have hdn : ∀ e : Entry,
        (if server.sameDn e.dn dn = true then changed delete add e else e).dn = e.dn := by
      intro e
      split
      · rfl
      · rfl
    rw [hdn a, hdn b]
    exact hab
  backlinks := by
    intro e he g hg
    obtain ⟨o, ho, rfl⟩ := List.mem_map.mp he
    have hlinks : g ∈ o.attrs "managedObjects" := by
      split at hg
      · simpa [changed] using hg
      · exact hg
    obtain ⟨t, ht, hsame⟩ := r.backlinks o ho g hlinks
    refine ⟨_, List.mem_map.mpr ⟨t, ht, rfl⟩, ?_⟩
    split
    · exact hsame
    · exact hsame

section Lookup

variable [UnicodeTables]

/-- The one object of a security identifier, when it is an ordinary live
synchronised person. -/
def lookup (cfg : Config) (r : Realm server) (sid : String) : Except IssueError Account :=
  match r.entries.filter fun e => server.within e.dn cfg.baseDn &&
      decide (decodeSidAttr (e.binAttrs "objectSid") (e.attrs "objectSid") = some sid) with
  | [entry] => do
    let sam ← require .unknownAccount (first entry "sAMAccountName")
    let _ ← (SamName.validate sam).mapError fun _ => IssueError.notEligible
    let classes := (entry.attrs "objectClass").map toAsciiLowercase
    if !classes.contains "user" then .error .notEligible
    else if classes.any fun c => !eligibleClasses.contains c then .error .notEligible
    else do
      let uac ← require .notEligible
        ((first entry "userAccountControl").bind (parseUnsigned 0x100000000))
      if uac &&& ufAccountDisable ≠ 0 then .error .notEligible
      else if uac &&& uacMachine ≠ 0 then .error .notEligible
      else do
        let identity ← require .notEligible (first entry "msDS-ExternalDirectoryObjectId")
        let _ ← (ExternalIdentity.decode identity).mapError fun _ => IssueError.notEligible
        return ⟨entry.dn, sam, entry.attrs "extensionName"⟩
  | _ => .error .unknownAccount

/-- The account a grant verb names: inside the parent unit, and not retired. -/
def target (cfg : Config) (r : Realm server) (sid : String) : Except IssueError Target := do
  let account ← lookup cfg r (← validatedSid sid)
  if !dnIsAtOrWithin account.dn cfg.cloudIdpOu then .error .notEligible
  else if account.markers.any fun m => startsWith m stRetired then .error .notEligible
  else
    return ⟨account, (account.markers.filter fun m => startsWith m grantPrefix).filterMap
      fun m => (DeviceGrant.decode m).toOption.map fun g => (m, g)⟩

/-- The values a revocation deletes. -/
def victims (t : Target) (thumbprint : String) : List String :=
  (t.grants.filter fun p => decide (p.2.thumbprint = thumbprint)).map Prod.fst

/-- Removes a grant. Removing one that is not there succeeds. -/
def revoke (cfg : Config) (r : Realm server) (sid thumbprint : String) :
    Except IssueError (Realm server) := do
  let t ← target cfg r sid
  let victims := victims t thumbprint
  if victims.isEmpty then return r
  else return modify r t.account.dn victims []

/-- The objects of a security identifier. -/
def found (cfg : Config) (r : Realm server) (sid : String) : List Entry :=
  r.entries.filter fun e => server.within e.dn cfg.baseDn &&
    decide (decodeSidAttr (e.binAttrs "objectSid") (e.attrs "objectSid") = some sid)

/-- What a lookup has found. -/
theorem target_ok {cfg : Config} {r : Realm server} {sid : String} {t : Target}
    (h : target cfg r sid = .ok t) :
    ∃ e, found cfg r sid = [e] ∧ t.account.dn = e.dn ∧
      t.account.markers = e.attrs "extensionName" ∧
      t.grants = ((e.attrs "extensionName").filter fun m => startsWith m grantPrefix).filterMap
        fun m => (DeviceGrant.decode m).toOption.map fun g => (m, g) := by
  unfold target at h
  obtain ⟨sid', hsid, h⟩ := bind_ok_iff.mp h
  obtain ⟨account, hlookup, h⟩ := bind_ok_iff.mp h
  obtain ⟨_, h⟩ := refuse_ok_iff.mp h
  obtain ⟨_, h⟩ := refuse_ok_iff.mp h
  cases h
  have hsame : sid' = sid := by
    unfold validatedSid at hsid
    cases hp : stripPrefix sid "S-1-" with
    | none => simp [hp] at hsid
    | some rest =>
      simp only [hp, refuse_ok_iff] at hsid
      exact (Except.ok.inj hsid.2.2).symm
  subst hsame
  unfold lookup at hlookup
  cases hf : found cfg r sid' with
  | nil =>
    unfold found at hf
    rw [hf] at hlookup
    cases hlookup
  | cons e es =>
    cases es with
    | cons e' es =>
      unfold found at hf
      rw [hf] at hlookup
      cases hlookup
    | nil =>
      have hf' := hf
      unfold found at hf'
      rw [hf'] at hlookup
      obtain ⟨sam, _, h⟩ := bind_ok_iff.mp hlookup
      obtain ⟨_, _, h⟩ := bind_ok_iff.mp h
      obtain ⟨_, h⟩ := refuse_ok_iff.mp h
      obtain ⟨_, h⟩ := refuse_ok_iff.mp h
      obtain ⟨uac, _, h⟩ := bind_ok_iff.mp h
      obtain ⟨_, h⟩ := refuse_ok_iff.mp h
      obtain ⟨_, h⟩ := refuse_ok_iff.mp h
      obtain ⟨_, _, h⟩ := bind_ok_iff.mp h
      obtain ⟨_, _, h⟩ := bind_ok_iff.mp h
      cases h
      exact ⟨e, rfl, rfl, rfl, rfl⟩

end Lookup

end Kerbridge.Issuerd

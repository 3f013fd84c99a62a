import Mathlib
import Kerbridge.CredentialCache
import Kerbridge.SamName

/-!
# The issuer's check of the cache it hands back

The ticket command has left a cache. The issuer reads it, and hands it back only when it
holds one ticket-granting ticket of the realm, that one prints the principal that was
asked for, and its flags are those that were asked for.
-/

namespace Kerbridge.Issuerd

open UnicodeText CredentialCache Ccache

/-- A failure: what crosses the socket, and what is logged. -/
structure IssueFailure where
  client : String
  detail : String
  deriving DecidableEq

/-- A failure of the issuer itself. -/
def issuerFailed (detail : String) : IssueFailure := ⟨"issuer failed", detail⟩

/-- The form a principal is printed in. -/
def display (p : Ccache.Principal) : String := "/".intercalate p.components ++ "@" ++ p.realm

/-- Whether a credential is a ticket-granting ticket of a realm. -/
def isTgt (realm : String) (c : Ccache.Credential) : Bool :=
  decide (c.server.realm = realm) &&
    match c.server.components with
    | [service, instance_] => decide (service = "krbtgt") && decide (instance_ = realm)
    | _ => false

/-- The flag of a postdated ticket that was not validated yet. -/
def tktFlgInvalid : UInt32 := 0x01000000

/-- The flag of a ticket that can be renewed. -/
def tktFlgRenewable : UInt32 := 0x00800000

/-- The flag of a ticket that was not derived from another. -/
def tktFlgInitial : UInt32 := 0x00400000

/-- Flags, as they are printed. -/
def hexFlags (flags : UInt32) : String :=
  "0x" ++ String.ofList (DeviceGrants.hexOf 8 flags.toNat)

/-- A ticket must be initial, renewable beyond its expiry, and not invalid. -/
def checkFlags (tgt : Ccache.Credential) : Except IssueFailure Unit :=
  if tgt.flags &&& tktFlgInitial = 0 then
    .error (issuerFailed ("TGT is not initial (flags " ++ hexFlags tgt.flags ++ ")"))
  else if tgt.flags &&& tktFlgInvalid ≠ 0 then
    .error (issuerFailed ("TGT is marked invalid (flags " ++ hexFlags tgt.flags ++ ")"))
  else if tgt.flags &&& tktFlgRenewable = 0 then
    .error (issuerFailed ("TGT is not renewable (flags " ++ hexFlags tgt.flags ++ ")"))
  else if tgt.renewUntil < tgt.expiresAt then
    .error (issuerFailed ("renew_until " ++ toString tgt.renewUntil ++ " is before expiry " ++
      toString tgt.expiresAt))
  else .ok ()

/-- The one ticket of a cache, if it is that of the principal. -/
def validate (realm : String) (bytes : List UInt8) (principal : String) :
    Except IssueFailure Ccache.Credential :=
  match Ccache.credentials bytes with
  | .error fault => .error (issuerFailed ("parsing ccache: " ++ cacheFailure fault))
  | .ok creds =>
    match creds.filter (isTgt realm) with
    | [] => .error (issuerFailed "ccache holds no TGT for the realm")
    | tgt :: more =>
      if !more.isEmpty then .error (issuerFailed "ccache holds more than one TGT")
      else if display tgt.client ≠ principal then
        .error (issuerFailed ("ccache client is " ++ display tgt.client ++ ", expected " ++
          principal))
      else
        match checkFlags tgt with
        | .error why => .error why
        | .ok () => .ok tgt

/-- What the flags and the times of an accepted ticket satisfy. -/
structure Usable (tgt : Ccache.Credential) : Prop where
  initial : tgt.flags &&& tktFlgInitial ≠ 0
  valid : tgt.flags &&& tktFlgInvalid = 0
  renewable : tgt.flags &&& tktFlgRenewable ≠ 0
  renewed : tgt.expiresAt ≤ tgt.renewUntil

/-- The ticket of a cache names an account of a realm, and no other of its credentials is a
ticket of the realm. -/
structure Names (creds : List Ccache.Credential) (sam realm : String)
    (tgt : Ccache.Credential) : Prop where
  alone : ∃ before after, creds = before ++ tgt :: after ∧
    ∀ c ∈ before ++ after, isTgt realm c = false
  server : tgt.server = ⟨realm, ["krbtgt", realm]⟩
  client : tgt.client = ⟨realm, [sam]⟩

section Text

/-- Texts around a separator that none of the second pair holds are those of that pair. -/
theorem split_unique {sep : Char} {J R S T : List Char} (hS : sep ∉ S) (hT : sep ∉ T)
    (h : J ++ sep :: R = S ++ sep :: T) : J = S ∧ R = T := by
  rcases List.append_eq_append_iff.mp h with ⟨between, hfirst, hrest⟩ | ⟨between, hfirst, hrest⟩
  · cases between with
    | nil =>
      rw [List.append_nil] at hfirst
      rw [List.nil_append] at hrest
      exact ⟨hfirst.symm, (List.cons_eq_cons.mp hrest).2⟩
    | cons c between =>
      rw [List.cons_append] at hrest
      obtain ⟨rfl, _⟩ := List.cons_eq_cons.mp hrest
      rw [hfirst] at hS
      exact absurd (List.mem_append_right J List.mem_cons_self) hS
  · cases between with
    | nil =>
      rw [List.append_nil] at hfirst
      rw [List.nil_append] at hrest
      exact ⟨hfirst, (List.cons_eq_cons.mp hrest).2.symm⟩
    | cons c between =>
      rw [List.cons_append] at hrest
      obtain ⟨rfl, htail⟩ := List.cons_eq_cons.mp hrest
      rw [htail] at hT
      exact absurd (List.mem_append_right between List.mem_cons_self) hT

/-- Components that print as one name without a slash are that name alone. -/
theorem components_of_joined {components : List String} {name : String} (hname : name ≠ "")
    (hslash : '/' ∉ name.toList) (h : "/".intercalate components = name) :
    components = [name] := by
  cases components with
  | nil =>
    rw [String.intercalate_nil] at h
    exact absurd h.symm hname
  | cons first rest =>
    cases rest with
    | nil =>
      rw [String.intercalate_singleton] at h
      rw [h]
    | cons second rest =>
      rw [String.intercalate_cons_cons] at h
      refine absurd ?_ hslash
      rw [← h]
      simp [String.toList_append]

end Text

section Accepted

variable [UnicodeTables]

/-- A name that is allowed is not empty and holds neither separator of a principal. -/
theorem sam_plain (hascii : ∀ c : Char, c.toNat < 128 → UnicodeTables.alphanumeric c = c.isAlphanum)
    {sam : String} (h : SamName.validate sam = .ok ()) :
    sam ≠ "" ∧ '@' ∉ sam.toList ∧ '/' ∉ sam.toList := by
  unfold SamName.validate at h
  split at h
  · cases h
  · rename_i hempty
    split at h
    · cases h
    · split at h
      · cases h
      · split at h
        · cases h
        · rename_i hallowed
          have hall : ∀ c ∈ sam.toList, SamName.allowed c = true := by
            intro c hc
            have hnone := List.find?_eq_none.mp hallowed c hc
            simpa using hnone
          have hat : SamName.allowed '@' = false := by
            unfold SamName.allowed
            rw [hascii '@' (by decide)]
            decide
          have hslash : SamName.allowed '/' = false := by
            unfold SamName.allowed
            rw [hascii '/' (by decide)]
            decide
          refine ⟨?_, ?_, ?_⟩
          · rintro rfl
            exact hempty rfl
          · intro hmem
            rw [hall '@' hmem] at hat
            cases hat
          · intro hmem
            rw [hall '/' hmem] at hslash
            cases hslash

/-- A principal that prints as a name in a realm is that name in that realm. -/
theorem principal_of_display
    (hascii : ∀ c : Char, c.toNat < 128 → UnicodeTables.alphanumeric c = c.isAlphanum)
    {p : Ccache.Principal} {sam realm : String} (hsam : SamName.validate sam = .ok ())
    (hrealm : '@' ∉ realm.toList) (h : display p = sam ++ "@" ++ realm) : p = ⟨realm, [sam]⟩ := by
  obtain ⟨hne, hat, hslash⟩ := sam_plain hascii hsam
  have hchars := congrArg String.toList h
  unfold display at hchars
  simp only [String.toList_append, List.append_assoc] at hchars
  obtain ⟨hjoined, hsame⟩ := split_unique hat hrealm hchars
  have hcomponents := components_of_joined hne hslash (String.toList_inj.mp hjoined)
  have hfound : p.realm = realm := String.toList_inj.mp hsame
  obtain ⟨found, components⟩ := p
  dsimp only at hcomponents hfound
  rw [hcomponents, hfound]

omit [UnicodeTables] in
/-- A ticket of a realm is issued by it for itself. -/
theorem server_of_isTgt {realm : String} {c : Ccache.Credential} (h : isTgt realm c = true) :
    c.server = ⟨realm, ["krbtgt", realm]⟩ := by
  unfold isTgt at h
  rw [Bool.and_eq_true, decide_eq_true_iff] at h
  obtain ⟨hrealm, hcomponents⟩ := h
  split at hcomponents
  · rename_i service instance_ heq
    rw [Bool.and_eq_true, decide_eq_true_iff, decide_eq_true_iff] at hcomponents
    obtain ⟨hservice, hinstance⟩ := hcomponents
    obtain ⟨client, ⟨found, components⟩, _, _, _, _⟩ := c
    dsimp only at hrealm heq
    rw [hrealm, heq, hservice, hinstance]
  · cases hcomponents

omit [UnicodeTables] in
/-- Flags and times that pass the check are those of a usable ticket. -/
theorem usable_of_checkFlags {tgt : Ccache.Credential} (h : checkFlags tgt = .ok ()) :
    Usable tgt := by
  unfold checkFlags at h
  split at h
  · cases h
  · rename_i hinitial
    split at h
    · cases h
    · rename_i hvalid
      split at h
      · cases h
      · rename_i hrenewable
        split at h
        · cases h
        · rename_i hrenewed
          exact ⟨hinitial, Decidable.not_not.mp hvalid, hrenewable, UInt32.not_lt.mp hrenewed⟩

/-- **A cache the issuer accepts** names the account and nothing else, and its ticket is
usable. -/
theorem validate_names
    (hascii : ∀ c : Char, c.toNat < 128 → UnicodeTables.alphanumeric c = c.isAlphanum)
    {realm sam : String} {bytes : List UInt8} {tgt : Ccache.Credential}
    (hsam : SamName.validate sam = .ok ()) (hrealm : '@' ∉ realm.toList)
    (h : validate realm bytes (sam ++ "@" ++ realm) = .ok tgt) :
    ∃ creds, Ccache.credentials bytes = .ok creds ∧ Names creds sam realm tgt ∧ Usable tgt := by
  unfold validate at h
  cases hread : Ccache.credentials bytes with
  | error fault =>
    rw [hread] at h
    cases h
  | ok creds =>
    rw [hread] at h
    dsimp only at h
    cases hfound : creds.filter (isTgt realm) with
    | nil =>
      rw [hfound] at h
      cases h
    | cons first more =>
      rw [hfound] at h
      dsimp only at h
      split at h
      · cases h
      · rename_i hone
        split at h
        · cases h
        · rename_i hprints
          cases hflags : checkFlags first with
          | error why =>
            rw [hflags] at h
            cases h
          | ok done =>
            rw [hflags] at h
            cases h
            obtain ⟨before, after, hcreds, hbefore, htgt, hafter⟩ :=
              List.filter_eq_cons_iff.mp hfound
            have hmore : more = [] := by
              cases more with
              | nil => rfl
              | cons second more => exact absurd rfl hone
            rw [hmore] at hafter
            refine ⟨creds, rfl, ⟨⟨before, after, hcreds, ?_⟩, server_of_isTgt htgt, ?_⟩,
              usable_of_checkFlags hflags⟩
            · intro c hc
              rcases List.mem_append.mp hc with hc | hc
              · simpa using hbefore c hc
              · simpa using List.filter_eq_nil_iff.mp hafter c hc
            · exact principal_of_display hascii hsam hrealm (Decidable.not_not.mp hprints)

end Accepted

section Sample

/-- The principal of the ticket-granting service of a realm, or of an account in it. -/
def realmPrincipal (components : List String) : Krbcred.Principal := ⟨1, "X", components⟩

/-- A ticket of a realm for an account, of one week. -/
def weekTicket : Record where
  credential := ⟨realmPrincipal ["a"], realmPrincipal ["krbtgt", "X"], 18, [7], 0, 0, 604800,
    604800, 0x00C00000, [1]⟩
  isSkey := 0
  addresses := []
  authdata := []
  secondTicket := []

/-- The counts of a principal of short names hold what they count. -/
theorem realmPrincipal_fits {components : List String} (hcount : components.length < countBound)
    (h : ∀ s ∈ components, (bytesOf s).length < countBound) :
    PrincipalFits (realmPrincipal components) where
  components := hcount
  realm := by
    change (bytesOf "X").length < countBound
    decide
  each := h

/-- The counts of the ticket hold what they count. -/
theorem weekTicket_fits : RecordFits weekTicket where
  client := realmPrincipal_fits (by decide) (by decide)
  server := realmPrincipal_fits (by decide) (by decide)
  key := by simp [weekTicket, countBound]
  addresses := by simp [weekTicket, countBound]
  eachAddress := by simp [weekTicket]
  authdata := by simp [weekTicket, countBound]
  eachDatum := by simp [weekTicket]
  ticket := by simp [weekTicket, countBound]
  secondTicket := by simp [weekTicket, countBound]

/-- The count of an empty header holds. -/
theorem emptyHeader_fits : ([] : List UInt8).length < 0x10000 := by decide

/-- The counts of the account's principal hold what they count. -/
theorem accountPrincipal_fits : PrincipalFits (realmPrincipal ["a"]) :=
  realmPrincipal_fits (by decide) (by decide)

/-- A cache of that ticket. -/
def weekCache : Cache where
  header := []
  principal := realmPrincipal ["a"]
  records := [weekTicket]
  headerFits := emptyHeader_fits
  principalFits := accountPrincipal_fits
  recordsFit := by
    intro r hr
    rw [List.mem_singleton.mp hr]
    exact weekTicket_fits

/-- The issuer accepts the cache. -/
theorem validate_weekCache :
    validate "X" weekCache.encode ("a" ++ "@" ++ "X") = .ok (kept weekTicket.credential) := by
  unfold validate
  rw [credentials_encode_kept]
  decide

/-- The cache holds one ticket of the realm, for the one account. -/
theorem validate_names_weekCache : ∃ creds, Ccache.credentials weekCache.encode = .ok creds ∧
    Names creds "a" "X" (kept weekTicket.credential) ∧ Usable (kept weekTicket.credential) :=
  @validate_names asciiTables (fun _ _ => rfl) "X" "a" weekCache.encode _ (by decide) (by decide)
    validate_weekCache

/-- The longest lifetime a realm allows unless its file states another. -/
def defaultMaxLifetime : ℕ := 36000

/-- A ticket that outlives what may be asked for is accepted. -/
theorem validate_long_lived : ∃ tgt, validate "X" weekCache.encode ("a" ++ "@" ++ "X") = .ok tgt ∧
    ¬tgt.expiresAt.toNat - tgt.startsAt.toNat ≤ defaultMaxLifetime :=
  ⟨kept weekTicket.credential, validate_weekCache, by decide⟩

end Sample

end Kerbridge.Issuerd

import Kerbridge.BrokerDevices

/-!
# A device may only remove itself

The request is authenticated by the full thumbprint of a key, selected by its
short handle, and executed on the first grant of that handle. What is removed is
the signing key's own grant exactly when that first grant carries its thumbprint.
-/

namespace Kerbridge.BrokerDevices

open UnicodeText StoredIdentity DeviceGrants LdapFilter RealmDirectory RealmState BrokerDirectory
  DeviceAssertion Fallible

variable {server : Server}

/-- The readable grants of an object, in the order the directory returns them. -/
def grantsOf (e : Entry) : List DeviceGrant :=
  (e.attrs "extensionName").filterMap fun v => (DeviceGrant.decode v).toOption

/-- A stored value that is a grant of a thumbprint. -/
def IsGrantOf (thumbprint v : String) : Prop :=
  ∃ g, DeviceGrant.decode v = .ok g ∧ g.thumbprint = thumbprint

/-- A value an object had, and that no object of its name has afterwards. -/
def Removed (before after : Realm server) (e : Entry) (v : String) : Prop :=
  e ∈ before.entries ∧ v ∈ e.attrs "extensionName" ∧
    ∀ o ∈ after.entries, server.sameDn o.dn e.dn = true → v ∉ o.attrs "extensionName"

/-- Something was removed, and nothing but grants of a thumbprint on one object. -/
def RemovedOnly (before after : Realm server) (e : Entry) (thumbprint : String) : Prop :=
  (∃ v, Removed before after e v) ∧
    ∀ o v, Removed before after o v → o = e ∧ IsGrantOf thumbprint v

/-- The first grant of an object that has a thumbprint's handle has the thumbprint. -/
def FirstIsOwn (e : Entry) (thumbprint : String) : Prop :=
  ∀ g, (grantsOf e).find? (fun g => some g.shortId == shortId thumbprint) = some g →
    g.thumbprint = thumbprint

/-- Nothing is removed where nothing changes. -/
theorem not_removed_self (r : Realm server) (e : Entry) (v : String) : ¬ Removed r r e v := by
  rintro ⟨he, hv, hnone⟩
  exact hnone e he (server.sameDn_self e.dn) hv

/-- A change of one object's values removes exactly the deleted values it had. -/
theorem removed_modify_iff (r : Realm server) {e : Entry} (he : e ∈ r.entries)
    {delete : List String} {o : Entry} {v : String} :
    Removed r (Issuerd.modify r e.dn delete []) o v ↔
      o = e ∧ v ∈ e.attrs "extensionName" ∧ v ∈ delete := by
  have hself := server.sameDn_self
  constructor
  · rintro ⟨ho, hv, hnone⟩
    have hmem : (if server.sameDn o.dn e.dn then Issuerd.changed delete [] o else o) ∈
        (Issuerd.modify r e.dn delete []).entries := List.mem_map.mpr ⟨o, ho, rfl⟩
    have hgone := hnone _ hmem
    by_cases hdn : server.sameDn o.dn e.dn = true
    · obtain rfl := r.eq_of_sameDn ho he hdn
      refine ⟨rfl, hv, ?_⟩
      by_contra hkeep
      simp only [hdn, if_true] at hgone
      apply hgone (hself _)
      simp [Issuerd.changed, hv, hkeep]
    · simp only [hdn, Bool.false_eq_true, if_false] at hgone
      exact absurd hv (hgone (hself _))
  · rintro ⟨rfl, hv, hdelete⟩
    refine ⟨he, hv, ?_⟩
    intro o ho hdn
    obtain ⟨p, hp, rfl⟩ := List.mem_map.mp ho
    have hsame : server.sameDn p.dn o.dn = true := by
      split at hdn
      · exact hdn
      · exact hdn
    obtain rfl := r.eq_of_sameDn hp he hsame
    simp [hsame, Issuerd.changed, hdelete]

section Machines

variable [DeviceLibraries]

/-- A machine that is resolved signed the assertion, names the handle of its own
key, and is the one object its identity names. -/
theorem selfRevocation_ok {b : Broker} {src : SourceState} {w : World server} {now : ℤ}
    {assertion id : String} {target : Option String} {account : Account}
    (h : (selfRevocation b src w now assertion id target).1 = .ok account) :
    ∃ key identity e, Signed assertion key identity ∧
      shortId (thumbprint key) = some id ∧
      Sole w.realm b.baseDn (fun o => BrokerDirectory.Target.Names server o (.identity identity))
        e ∧ Usable e account := by
  unfold selfRevocation at h
  split at h
  · cases h
  · dsimp only at h
    simp only [bind_ok_iff, mapError_ok_iff, refuse_ok_iff, ne_eq, not_not] at h
    obtain ⟨proof, hproof, hid, _, _, hresolve⟩ := h
    obtain ⟨key, hsigned, hthumb⟩ := verify_ok hproof
    rw [resolve, ← BrokerDirectory.Target.ldapFilter_identity, findAccount_ok_iff] at hresolve
    obtain ⟨e, hsole, husable, _⟩ := hresolve
    exact ⟨key, proof.identity, e, hsigned, hthumb ▸ hid, hsole, husable⟩

/-- Resolving a machine changes nothing in the directory. -/
theorem selfRevocation_realm (b : Broker) (src : SourceState) (w : World server) (now : ℤ)
    (assertion id : String) (target : Option String) :
    (selfRevocation b src w now assertion id target).2.realm = w.realm := by
  unfold selfRevocation
  split
  · rfl
  · rfl

end Machines

section Requests

variable [UnicodeTables]

/-- The issuer finds the object whose identifier it is given, and its grants. -/
theorem target_ok {cfg : Issuerd.Config} {r : Realm server} {e : Entry} (he : e ∈ r.entries)
    (hwithin : server.within e.dn cfg.baseDn = true) {sid : String}
    (hsid : decodeSidAttr (e.binAttrs "objectSid") (e.attrs "objectSid") = some sid)
    {t : Issuerd.Target} (h : Issuerd.target cfg r sid = .ok t) :
    t.account.dn = e.dn ∧ t.grants =
      ((e.attrs "extensionName").filter fun m => startsWith m grantPrefix).filterMap
        fun m => (DeviceGrant.decode m).toOption.map fun g => (m, g) := by
  obtain ⟨o, hfound, hdn, _, hgrants⟩ := Issuerd.target_ok h
  have hmem : e ∈ Issuerd.found cfg r sid := by
    rw [Issuerd.found, List.mem_filter]
    simp [he, hwithin, hsid]
  rw [hfound, List.mem_singleton] at hmem
  subst hmem
  exact ⟨hdn, hgrants⟩

/-- A revocation removes the values that are grants of the thumbprint, on the one
object, and nothing else. -/
theorem removed_revoke_iff {cfg : Issuerd.Config} {r r' : Realm server} {e : Entry}
    (he : e ∈ r.entries) (hwithin : server.within e.dn cfg.baseDn = true) {sid : String}
    (hsid : decodeSidAttr (e.binAttrs "objectSid") (e.attrs "objectSid") = some sid)
    {thumbprint : String} (h : Issuerd.revoke cfg r sid thumbprint = .ok r') {o : Entry}
    {v : String} :
    Removed r r' o v ↔ o = e ∧ v ∈ e.attrs "extensionName" ∧ IsGrantOf thumbprint v := by
  unfold Issuerd.revoke at h
  rw [bind_ok_iff] at h
  obtain ⟨t, ht, hmodify⟩ := h
  obtain ⟨hdn, hgrants⟩ := target_ok he hwithin hsid ht
  have hvictims : v ∈ e.attrs "extensionName" →
      (v ∈ Issuerd.victims t thumbprint ↔ IsGrantOf thumbprint v) := by
    intro hv
    simp only [Issuerd.victims, hgrants, List.mem_map, List.mem_filter, List.mem_filterMap,
      Option.map_eq_some_iff, decide_eq_true_eq, Prod.exists, toOption_eq_some_iff]
    constructor
    · rintro ⟨_, g, ⟨⟨m, _, d, hread, hpair⟩, hthumb⟩, rfl⟩
      cases hpair
      exact ⟨g, hread, hthumb⟩
    · rintro ⟨g, hread, hthumb⟩
      exact ⟨v, g, ⟨⟨v, ⟨hv, startsWith_of_decode hread⟩, g, hread, rfl⟩, hthumb⟩, rfl⟩
  dsimp only at hmodify
  split at hmodify
  · rename_i hempty
    cases hmodify
    constructor
    · intro hremoved
      exact absurd hremoved (not_removed_self r o v)
    · rintro ⟨_, hv, hgrant⟩
      have hmem := (hvictims hv).mpr hgrant
      rw [List.isEmpty_iff.mp hempty] at hmem
      cases hmem
  · cases hmodify
    rw [hdn, removed_modify_iff r he]
    constructor
    · rintro ⟨ho, hv, hmem⟩
      exact ⟨ho, hv, (hvictims hv).mp hmem⟩
    · rintro ⟨ho, hv, hgrant⟩
      exact ⟨ho, hv, (hvictims hv).mpr hgrant⟩

/-- What the issuer leaves behind is the directory as it was, or as the revocation
makes it; a request that ends well made the revocation. -/
theorem issuerRevoke_cases (b : Broker) (w : World server) (delivery : Delivery)
    (sid thumbprint : String) :
    ((issuerRevoke b w delivery sid thumbprint).2.realm = w.realm ∧
      (issuerRevoke b w delivery sid thumbprint).1 ≠ .ok ()) ∨
    Issuerd.revoke b.issuer w.realm sid thumbprint =
      .ok (issuerRevoke b w delivery sid thumbprint).2.realm := by
  unfold issuerRevoke
  cases hrevoke : Issuerd.revoke b.issuer w.realm sid thumbprint with
  | error e =>
    left
    cases delivery with
    | answered => exact ⟨rfl, by simp⟩
    | unsent => exact ⟨rfl, by simp⟩
    | failed => exact ⟨rfl, by simp⟩
    | unanswered => exact ⟨rfl, by simp⟩
  | ok r =>
    cases delivery with
    | answered => exact Or.inr rfl
    | unsent => exact Or.inl ⟨rfl, by simp⟩
    | failed => exact Or.inl ⟨rfl, by simp⟩
    | unanswered => exact Or.inr rfl

variable [DeviceLibraries]

/-- A request on an assertion leaves the directory alone and fails, or it revokes the
first grant of the signing key's handle on the object the assertion's identity names. -/
theorem revokeDevice_cases (b : Broker) (w : World server) (now : ℤ) (delivery : Delivery)
    (source id : String) {header : Option String} (target : Option String) {assertion : String}
    (h : proof header = some (.deviceGrant assertion)) :
    ((revokeDevice b w now delivery source id header target).2.realm = w.realm ∧
      (revokeDevice b w now delivery source id header target).1 ≠ .ok ()) ∨
    ∃ key identity e account g, Signed assertion key identity ∧
      shortId (thumbprint key) = some id ∧
      Sole w.realm b.baseDn (fun o => BrokerDirectory.Target.Names server o (.identity identity))
        e ∧ Usable e account ∧ (grantsOf e).find? (fun g => g.shortId == id) = some g ∧
      Issuerd.revoke b.issuer w.realm account.sid g.thumbprint =
        .ok (revokeDevice b w now delivery source id header target).2.realm := by
  unfold revokeDevice
  cases b.source source with
  | none => exact Or.inl ⟨rfl, by simp⟩
  | some src =>
    by_cases hoff : b.grantDays = 0
    · simp [hoff]
    · by_cases hid : isGrantHandle id = true
      · simp only [hoff, hid, h, if_false, Bool.not_true, Bool.false_eq_true]
        have hrealm := selfRevocation_realm b src w now assertion id target
        rcases hself : selfRevocation b src w now assertion id target with ⟨resolved, w'⟩
        rw [hself] at hrealm
        cases resolved with
        | error failure => exact Or.inl ⟨hrealm, by simp [revokeGrant]⟩
        | ok account =>
          have hok := congrArg Prod.fst hself
          obtain ⟨key, identity, e, hsigned, hshort, hsole, husable⟩ := selfRevocation_ok hok
          unfold revokeGrant
          have hgrants : account.grants = grantsOf e := husable.grants
          cases hfind : account.grants.find? fun g => g.shortId == id with
          | none =>
            simp only [hfind]
            exact Or.inl ⟨hrealm, by simp⟩
          | some g =>
            simp only [hfind]
            rcases issuerRevoke_cases b w' delivery account.sid g.thumbprint with hsame | hrevoke
            · exact Or.inl ⟨hsame.1.trans hrealm, hsame.2⟩
            · right
              rw [hrealm] at hrevoke
              exact ⟨key, identity, e, account, g, hsigned, hshort, hsole, husable,
                hgrants ▸ hfind, hrevoke⟩
      · simp [hoff, hid]

/-- A device removes its own grant alone, exactly when the first grant of its handle
is its own. Whatever is removed, on any outcome, was on the object the assertion's
identity names; a request that removes something or ends well has an assertion that a
key signed for an identity of one object alone. -/
theorem revoked_is_own (b : Broker) (w : World server) (now : ℤ) (delivery : Delivery)
    (source id : String) {header : Option String} (target : Option String) {assertion : String}
    (h : proof header = some (.deviceGrant assertion)) :
    ((revokeDevice b w now delivery source id header target).1 = .ok () ∨
        (∃ o v, Removed w.realm (revokeDevice b w now delivery source id header target).2.realm o v) →
      ∃ key identity e, Signed assertion key identity ∧
        Sole w.realm b.baseDn
          (fun o => BrokerDirectory.Target.Names server o (.identity identity)) e) ∧
    ∀ key identity e, Signed assertion key identity →
      Sole w.realm b.baseDn
        (fun o => BrokerDirectory.Target.Names server o (.identity identity)) e →
      (FirstIsOwn e (thumbprint key) →
        ∀ o v, Removed w.realm (revokeDevice b w now delivery source id header target).2.realm o v →
          o = e ∧ IsGrantOf (thumbprint key) v) ∧
      ((revokeDevice b w now delivery source id header target).1 = .ok () →
        (RemovedOnly w.realm (revokeDevice b w now delivery source id header target).2.realm e
          (thumbprint key) ↔ FirstIsOwn e (thumbprint key))) := by
  rcases revokeDevice_cases b w now delivery source id target h with ⟨hsame, hfail⟩ | hrevoked
  · rw [hsame]
    refine ⟨?_, ?_⟩
    · rintro (hok | ⟨o, v, hremoved⟩)
      · exact absurd hok hfail
      · exact absurd hremoved (not_removed_self _ o v)
    · intro key identity e _ _
      refine ⟨?_, ?_⟩
      · intro _ o v hremoved
        exact absurd hremoved (not_removed_self _ o v)
      · intro hok
        exact absurd hok hfail
  · obtain ⟨key, identity, e, account, g, hsigned, hshort, hsole, husable, hfind, hrevoke⟩ := hrevoked
    have hremoved : ∀ {o v}, Removed w.realm
        (revokeDevice b w now delivery source id header target).2.realm o v ↔
        o = e ∧ v ∈ e.attrs "extensionName" ∧ IsGrantOf g.thumbprint v :=
      removed_revoke_iff hsole.1.1 hsole.1.2.1 husable.sid hrevoke
    refine ⟨fun _ => ⟨key, identity, e, hsigned, hsole⟩, ?_⟩
    intro key' identity' e' hsigned' hsole'
    obtain ⟨rfl, rfl⟩ := hsigned.unique hsigned'
    obtain rfl := hsole.2 e' hsole'.1.1 hsole'.1.2.1 hsole'.1.2.2
    have hfirst : FirstIsOwn e' (thumbprint key) ↔ g.thumbprint = thumbprint key := by
      have hsearch : (grantsOf e').find? (fun g => some g.shortId == shortId (thumbprint key)) =
          some g := by
        rw [← hfind]
        congr 1
        funext g
        rw [hshort]
        rfl
      unfold FirstIsOwn
      rw [hsearch]
      constructor
      · intro hown
        exact hown g rfl
      · intro hown o ho
        cases ho
        exact hown
    refine ⟨?_, ?_⟩
    · intro hown o v hv
      obtain ⟨rfl, _, hgrant⟩ := hremoved.mp hv
      exact ⟨rfl, hfirst.mp hown ▸ hgrant⟩
    · intro _
      rw [hfirst]
      obtain ⟨v, hv, hdecode⟩ := List.mem_filterMap.mp (List.mem_of_find?_eq_some hfind)
      have hgrant : IsGrantOf g.thumbprint v := ⟨g, toOption_eq_some_iff.mp hdecode, rfl⟩
      have hgone := hremoved.mpr ⟨rfl, hv, hgrant⟩
      constructor
      · intro honly
        obtain ⟨_, g', hread, hthumb⟩ := honly.2 e' v hgone
        rw [toOption_eq_some_iff.mp hdecode] at hread
        cases hread
        exact hthumb
      · intro hown
        refine ⟨⟨v, hgone⟩, ?_⟩
        intro o v' hv'
        obtain ⟨rfl, _, hgrant'⟩ := hremoved.mp hv'
        exact ⟨rfl, hown ▸ hgrant'⟩

/-- A machine that is resolved, and whose handle finds a grant the issuer revokes, has
removed it. -/
theorem revokeDevice_ok {b : Broker} {w w' : World server} {now : ℤ} {source id : String}
    {header target : Option String} {assertion : String} {src : SourceState} {account : Account}
    {g : DeviceGrant} {r : Realm server} (hsource : b.source source = some src)
    (hon : b.grantDays ≠ 0) (hhandle : isGrantHandle id = true)
    (hproof : proof header = some (.deviceGrant assertion))
    (hself : selfRevocation b src w now assertion id target = (.ok account, w'))
    (hfind : account.grants.find? (fun g => g.shortId == id) = some g)
    (hrevoke : Issuerd.revoke b.issuer w'.realm account.sid g.thumbprint = .ok r) :
    revokeDevice b w now .answered source id header target = (.ok (), { w' with realm := r }) := by
  unfold revokeDevice
  rw [hsource]
  simp only [hon, hhandle, hproof, hself, if_false, Bool.not_true, Bool.false_eq_true]
  unfold revokeGrant
  simp only [hfind]
  unfold issuerRevoke
  rw [hrevoke]

end Requests

section SharedHandle

/-- A key on the curve. -/
def ownKey : List UInt8 :=
  [4, 160, 30, 143, 254, 188, 18, 58, 92, 75, 208, 98, 133, 29, 203, 168, 183, 11, 47, 156, 245,
   127, 236, 16, 90, 138, 82, 89, 35, 214, 231, 105, 250, 224, 26, 169, 113, 69, 17, 241, 147,
   154, 235, 48, 201, 118, 68, 78, 167, 188, 118, 84, 63, 39, 57, 245, 58, 182, 183, 15, 182, 207,
   4, 58, 7]

/-- The thumbprint of the key. -/
def ownThumbprint : String := "WiPHG5w8ma0WaiyeMgifqQLemSaVSO5i_ONTnaXG0PI"

/-- The thumbprint of another key on the curve, with the same handle. -/
def otherThumbprint : String := "WiPHG1JHirH6KsBUh4J5zQXiD7BtOzpQkfJTbcxfO6U"

/-- The digest of the key. -/
def ownDigest : List UInt8 :=
  [90, 35, 199, 27, 156, 60, 153, 173, 22, 106, 44, 158, 50, 8, 159, 169, 2, 222, 153, 38, 149,
   72, 238, 98, 252, 227, 83, 157, 165, 198, 208, 242]

/-- A signature has its length. -/
def ownSignature : List UInt8 := List.replicate p256SignatureLen 7

/-- The libraries on one assertion, its texts cut down to a letter each. -/
@[reducible] def ownLibraries : DeviceLibraries where
  b64url text := [("p", [112]), ("k", ownKey), ("s", ownSignature)].lookup text
  b64urlEncode bytes := if bytes = ownDigest then ownThumbprint else ""
  payload bytes := if bytes = [112] then some ⟨"kb1|s|a", "k", "n", "r", 60⟩ else none
  ecdsaP256Sha256 key message signature :=
    decide (key = ownKey ∧ message = [112] ∧ signature = ownSignature)
  sha256 key := if key = ownKey then ownDigest else []

/-- The grant of the key. -/
def ownGrant : DeviceGrant := ⟨"", .es256, ownThumbprint, 1, 2, none⟩

/-- The grant of the other key. -/
def otherGrant : DeviceGrant := ⟨"", .es256, otherThumbprint, 1, 2, none⟩

/-- An account with two grants: the first is of another key with the same handle. -/
def sharedEntry : Entry :=
  listed "CN=a,O=x" [[1, 1, 0, 0, 0, 0, 0, 5, 18, 0, 0, 0]] [("objectClass", ["user"]), ("sAMAccountName", ["a"]),
    ("userAccountControl", ["512"]), ("msDS-ExternalDirectoryObjectId", ["kb1|s|a"]),
    ("memberOf", ["CN=r,O=x"]),
    ("extensionName", [otherGrant.encode, ownGrant.encode])]

/-- The account and the admission group. -/
noncomputable def sharedRealm : Realm plainServer where
  entries := [sharedEntry, roleEntry "CN=r,O=x" roleAdmission]
  distinct := by
    simp [plainServer, sharedEntry, roleEntry, listed, eqIgnoreAsciiCase]
  backlinks := by
    intro e he g hg
    simp only [List.mem_cons, List.not_mem_nil, or_false] at he
    rcases he with rfl | rfl
    · simp [sharedEntry, listed, List.lookup_cons] at hg
    · simp [roleEntry, listed, List.lookup_cons] at hg

/-- A source with no sign-in. -/
def sharedSource : SourceState := ⟨askingIdentity.source, "O=x", fun _ _ => .error ""⟩

/-- A broker of that source. -/
def sharedBroker : Broker where
  sources := [sharedSource]
  baseDn := "O=x"
  cloudIdpOu := "O=x"
  audience := "r"
  grantDays := 1

/-- The directory, and one nonce that is not spent. -/
noncomputable def sharedWorld : World plainServer :=
  ⟨sharedRealm, fun nonce => if nonce = "n" then some 60 else none⟩

/-- The request of the key to remove itself. -/
noncomputable def sharedRequest : Except Failure Unit × World plainServer :=
  @revokeDevice plainServer asciiTables ownLibraries sharedBroker sharedWorld 0 .answered "s"
    "5a23c71b" (some "DeviceGrant p.s") none

/-- The account the request resolves to. -/
def sharedAccount : Account :=
  ⟨"S-1-5-18", "a", "kb1|s|a", "CN=a,O=x", [], [otherGrant, ownGrant]⟩

/-- Both stored values are read as the grants they were written from. -/
theorem decode_shared : DeviceGrant.decode ownGrant.encode = .ok ownGrant ∧
    DeviceGrant.decode otherGrant.encode = .ok otherGrant := by
  constructor
  · decide
  · decide

/-- The account's object is the one the identity names. -/
theorem sole_shared : Sole sharedRealm "O=x"
    (fun o => BrokerDirectory.Target.Names plainServer o (.identity askingIdentity))
      sharedEntry := by
  have hencode : askingIdentity.encode = "kb1|s|a" := by decide
  refine ⟨⟨List.mem_cons_self, by decide, ?_⟩, ?_⟩
  · simp [BrokerDirectory.Target.Names, has_plainServer_iff, hencode, sharedEntry, listed,
      List.lookup_cons]
  · intro o ho _ hnames
    simp only [sharedRealm, List.mem_cons, List.not_mem_nil, or_false] at ho
    rcases ho with rfl | rfl
    · rfl
    · simp [BrokerDirectory.Target.Names, has_plainServer_iff, roleEntry, listed,
        List.lookup_cons] at hnames

/-- The object reads as the account. -/
theorem usable_shared : Usable sharedEntry sharedAccount := by
  refine ⟨⟨"512", 512, ?_, ?_, ?_⟩, ?_, ?_, ?_, rfl, ?_, ?_⟩
  · decide
  · decide
  · decide
  · decide
  · decide
  · decide
  · decide
  · have hvalues : sharedEntry.attrs "extensionName" = [otherGrant.encode, ownGrant.encode] := by
      simp [sharedEntry, listed, List.lookup_cons]
    rw [hvalues]
    simp [decode_shared, Except.toOption, sharedAccount]

/-- The account resolves. -/
theorem resolve_shared : resolve ⟨"O=x", "O=x"⟩ sharedRealm askingIdentity = .ok sharedAccount := by
  rw [resolve, ← BrokerDirectory.Target.ldapFilter_identity, findAccount_ok_iff]
  refine ⟨sharedEntry, sole_shared, usable_shared, ?_, by simp⟩
  refine ⟨roleEntry "CN=r,O=x" roleAdmission, ⟨⟨?_, by decide, ?_⟩, ?_⟩, ?_⟩
  · simp [sharedRealm]
  · simp [has_plainServer_iff, roleEntry, listed, List.lookup_cons]
  · intro o ho _ hhas
    simp only [sharedRealm, List.mem_cons, List.not_mem_nil, or_false] at ho
    rcases ho with rfl | rfl
    · have hvalue : roleAdmission = otherGrant.encode ∨ roleAdmission = ownGrant.encode := by
        rw [has_plainServer_iff] at hhas
        simpa [sharedEntry, listed, List.lookup_cons] using hhas
      have hunread : ∀ g, DeviceGrant.decode roleAdmission ≠ .ok g := by
        intro g hg
        have hprefix := startsWith_of_decode hg
        revert hprefix
        decide
      rcases hvalue with hvalue | hvalue
      · exact absurd (hvalue ▸ decode_shared.2) (hunread _)
      · exact absurd (hvalue ▸ decode_shared.1) (hunread _)
    · rfl
  · exact Relation.TransGen.single ⟨sharedEntry, List.mem_cons_self, rfl, by
      simp [sharedEntry, listed, List.lookup_cons, roleEntry]⟩

/-- The issuer answers the request for the grant found by the handle. -/
theorem revoke_shared : ∃ r, @Issuerd.revoke plainServer asciiTables sharedBroker.issuer sharedRealm
    sharedAccount.sid otherThumbprint = .ok r := by
  let _ := asciiTables
  have hfilter : sharedRealm.entries.filter (fun e =>
      plainServer.within e.dn sharedBroker.issuer.baseDn &&
        decide (decodeSidAttr (e.binAttrs "objectSid") (e.attrs "objectSid") = some "S-1-5-18")) =
      [sharedEntry] := by
    rw [filter_eq_singleton_iff]
    refine ⟨⟨List.mem_cons_self, by decide⟩, ?_⟩
    intro o ho hpass
    simp only [sharedRealm, List.mem_cons, List.not_mem_nil, or_false] at ho
    rcases ho with rfl | rfl
    · rfl
    · exact absurd hpass (by decide)
  have hlookup : Issuerd.lookup sharedBroker.issuer sharedRealm "S-1-5-18" =
      .ok ⟨"CN=a,O=x", "a", [otherGrant.encode, ownGrant.encode]⟩ := by
    unfold Issuerd.lookup
    rw [hfilter]
    decide +kernel
  have htarget : ∃ t, Issuerd.target sharedBroker.issuer sharedRealm "S-1-5-18" = .ok t := by
    unfold Issuerd.target
    simp only [bind_ok_iff, refuse_ok_iff]
    refine ⟨_, "S-1-5-18", by decide +kernel, _, hlookup, by decide +kernel, by decide +kernel, rfl⟩
  obtain ⟨t, ht⟩ := htarget
  unfold Issuerd.revoke
  rw [show sharedAccount.sid = "S-1-5-18" from rfl, ht]
  by_cases hnone : (Issuerd.victims t otherThumbprint).isEmpty = true
  · exact ⟨sharedRealm, by simp [hnone, bind, Except.bind, pure, Except.pure]⟩
  · exact ⟨_, by simp only [bind, Except.bind, hnone]; rfl⟩

/-- The key signed the assertion. -/
theorem signed_shared : @Signed ownLibraries "p.s" ownKey askingIdentity := by
  let _ := ownLibraries
  refine ⟨"p", "s", [112], ⟨"kb1|s|a", "k", "n", "r", 60⟩, ownSignature, ?_, ?_, rfl, ?_, ?_, ?_, ?_⟩
  · decide
  · decide
  · decide
  · decide
  · decide
  · decide +kernel

/-- The header carries the assertion. -/
theorem proof_shared : proof (some "DeviceGrant p.s") = some (.deviceGrant "p.s") := by
  decide

/-- The request ends well, and the issuer revokes the grant found by the handle. -/
theorem request_shared : sharedRequest.1 = .ok () ∧
    @Issuerd.revoke plainServer asciiTables sharedBroker.issuer sharedRealm sharedAccount.sid
      otherThumbprint = .ok sharedRequest.2.realm := by
  let _ := asciiTables
  let _ := ownLibraries
  have hverify : (verify "p.s" "r" sharedWorld.nonces 0).1 =
      .ok ⟨askingIdentity, ownThumbprint⟩ := by decide +kernel
  have hhandles : otherGrant.shortId = "5a23c71b" ∧ shortId ownThumbprint = some "5a23c71b" := by
    decide
  obtain ⟨r, hrevoke⟩ := revoke_shared
  rcases hv : verify "p.s" "r" sharedWorld.nonces 0 with ⟨verified, nonces⟩
  rw [hv] at hverify
  dsimp only at hverify
  subst hverify
  have hself : selfRevocation sharedBroker sharedSource sharedWorld 0 "p.s" "5a23c71b" none =
      (.ok sharedAccount, ⟨sharedRealm, nonces⟩) := by
    have hresolve : resolve (sharedBroker.directory sharedSource) sharedWorld.realm
        askingIdentity = .ok sharedAccount := resolve_shared
    have hsame : sameSource sharedSource askingIdentity = .ok () := rfl
    unfold selfRevocation
    rw [show sharedBroker.audience = "r" from rfl, hv]
    simp only [Option.isSome_none, Bool.false_eq_true, if_false, Except.mapError, bind,
      Except.bind, hhandles, hsame, hresolve, ne_eq, not_true_eq_false]
    rfl
  have hfind : sharedAccount.grants.find? (fun g => g.shortId == "5a23c71b") =
      some otherGrant := by
    simp [sharedAccount, hhandles]
  have hrequest : sharedRequest = (.ok (), ⟨r, nonces⟩) :=
    revokeDevice_ok rfl (by decide) (by decide) proof_shared hself hfind hrevoke
  rw [hrequest]
  exact ⟨rfl, hrevoke⟩

/-- The request removes only the signing key's grant exactly if the first grant of the
handle is its own, which it is not. -/
theorem revoked_is_own_shared :
    RemovedOnly sharedWorld.realm sharedRequest.2.realm sharedEntry
        (@thumbprint ownLibraries ownKey) ↔
      FirstIsOwn sharedEntry (@thumbprint ownLibraries ownKey) := by
  have hrule := (@revoked_is_own plainServer asciiTables ownLibraries sharedBroker sharedWorld 0
    .answered "s" "5a23c71b" _ none "p.s" proof_shared).2 ownKey askingIdentity sharedEntry
    signed_shared sole_shared
  have hrequest : @revokeDevice plainServer asciiTables ownLibraries sharedBroker sharedWorld 0
      .answered "s" "5a23c71b" (some "DeviceGrant p.s") none = sharedRequest := rfl
  rw [hrequest] at hrule
  exact hrule.2 request_shared.1

/-- The request ends well and removes the grant of the other key, while the key that
signed keeps its own. -/
theorem shared_handle_removes_other :
    @Signed ownLibraries "p.s" ownKey askingIdentity ∧
    Sole sharedRealm "O=x"
      (fun o => BrokerDirectory.Target.Names plainServer o (.identity askingIdentity))
      sharedEntry ∧
    sharedRequest.1 = .ok () ∧
    Removed sharedRealm sharedRequest.2.realm sharedEntry otherGrant.encode ∧
    ¬ IsGrantOf (@thumbprint ownLibraries ownKey) otherGrant.encode ∧
    IsGrantOf (@thumbprint ownLibraries ownKey) ownGrant.encode ∧
    ¬ Removed sharedRealm sharedRequest.2.realm sharedEntry ownGrant.encode := by
  have hremoved : ∀ {v}, Removed sharedRealm sharedRequest.2.realm sharedEntry v ↔
      sharedEntry = sharedEntry ∧ v ∈ sharedEntry.attrs "extensionName" ∧
        IsGrantOf otherThumbprint v :=
    @removed_revoke_iff _ asciiTables _ _ _ _ sole_shared.1.1 sole_shared.1.2.1 _
      usable_shared.sid _ request_shared.2 _
  have hvalues : sharedEntry.attrs "extensionName" = [otherGrant.encode, ownGrant.encode] := by
    simp [sharedEntry, listed, List.lookup_cons]
  have hdiffer : ownThumbprint ≠ otherThumbprint := by decide
  have hthumb : @thumbprint ownLibraries ownKey = ownThumbprint := by decide
  refine ⟨signed_shared, sole_shared, request_shared.1, ?_, ?_, ?_, ?_⟩
  · rw [hremoved, hvalues]
    exact ⟨rfl, List.mem_cons_self, otherGrant, decode_shared.2, rfl⟩
  · rintro ⟨g, hread, hg⟩
    rw [decode_shared.2] at hread
    cases hread
    exact hdiffer (hthumb.symm.trans hg.symm)
  · rw [hthumb]
    exact ⟨ownGrant, decode_shared.1, rfl⟩
  · rw [hremoved]
    rintro ⟨_, _, g, hread, hg⟩
    rw [decode_shared.1] at hread
    cases hread
    exact hdiffer hg

end SharedHandle

end Kerbridge.BrokerDevices

import Kerbridge.DeviceRevocation
import Kerbridge.GrantVerbs
import Kerbridge.Runs

/-!
# Exchanging an identity proof for a ticket

The ticket route of the broker. A browser sign-in must satisfy the admission group
alone. A device assertion must satisfy the grant group as well, and its key must
have a grant on the object that is inside its window; both are read again at every
exchange.
-/

namespace Kerbridge.BrokerDevices

open UnicodeText StoredIdentity DeviceGrants RealmDirectory RealmState BrokerDirectory
  DeviceAssertion Fallible Runs

variable {server : Server}

/-- The answer to an exchange that ends well. -/
structure TicketResponse where
  principal : String
  ccacheB64 : String

/-- An exchange that ended well, with the account the ticket was asked for. -/
structure Exchanged where
  account : Account
  response : TicketResponse

/-- One request to exchange a proof, and what the machines around the broker do. -/
structure TicketRequest where
  /-- Whether a slot for a request in flight is free. -/
  slot : Bool
  source : String
  header : Option String
  /-- The clock reading, in seconds since the epoch. -/
  now : ℤ
  /-- What the issuer answers for an account. -/
  issuer : String → Except Failure TicketResponse
  /-- How far the stamp of use gets. -/
  delivery : Delivery

/-- The grant an assertion claims, if the directory still agrees that it is usable. -/
def liveGrant (grantDays : ℕ) (account : Account) (thumbprint : String) (now : ℤ) :
    Except Failure DeviceGrant := do
  let grant ← require unauthorized
    (account.grants.find? fun g => decide (g.thumbprint = thumbprint))
  if !grant.validAt now.toNat grantDays then .error unauthorized
  else .ok grant

section Libraries

variable [DeviceLibraries]

/-- The identity a proof shows, and the key it is signed with when a device made it. -/
def identified (b : Broker) (src : SourceState) (nonces : Nonces) (now : ℤ)
    (header : Option String) : Except Failure (ExternalIdentity × Option String) × Nonces :=
  match proof header with
  | some (.bearer token) =>
    (((src.identify token now).mapError fun _ => unauthorized).map fun id => (id, none), nonces)
  | some (.deviceGrant assertion) =>
    if b.grantDays = 0 then (.error ⟨403, "device grants are not enabled"⟩, nonces)
    else
      let (verified, nonces) := verify assertion b.audience nonces now
      ((verified.mapError fun _ => unauthorized).map fun p => (p.identity, some p.thumbprint),
        nonces)
  | none => (.error ⟨400, "malformed request"⟩, nonces)

end Libraries

/-- The account an identity resolves to, and the live grant of the key when a device
signed. -/
def admitted (b : Broker) (src : SourceState) (r : Realm server) (now : ℤ)
    (identity : ExternalIdentity) :
    Option String → Except Failure (Account × Option DeviceGrant)
  | none => do
    sameSource src identity
    let account ← (resolve (b.directory src) r identity).mapError directoryFailure
    return (account, none)
  | some thumbprint => do
    sameSource src identity
    let account ← (resolveForGrant (b.directory src) r identity).mapError directoryFailure
    let grant ← liveGrant b.grantDays account thumbprint now
    return (account, some grant)

variable [UnicodeTables]

/-- The stamp of the grant's last use, if the schedule asks for it. A stamp that fails
is ignored. -/
def touch (b : Broker) (w : World server) (delivery : Delivery) (account : Account)
    (grant : DeviceGrant) (now : ℤ) : World server :=
  if !needsTouch grant.seen now.toNat then w
  else
    let written := do
      Issuerd.settle w.realm (← Issuerd.touchChange b.issuer w.realm account.sid grant.thumbprint
        (UInt64.ofNat now.toNat))
    match delivery, written with
    | .answered, .ok r => { w with realm := r }
    | .unanswered, .ok r => { w with realm := r }
    | _, _ => w

variable [DeviceLibraries]

/-- Verifies the proof, resolves the account, and gets a ticket for it. -/
def issue (b : Broker) (src : SourceState) (w : World server) (req : TicketRequest) :
    Except Failure Exchanged × World server :=
  if req.now < 0 then (.error ⟨500, "server error"⟩, w)
  else
    let (found, nonces) := identified b src w.nonces req.now req.header
    let w := { w with nonces := nonces }
    match found.bind fun p => admitted b src w.realm req.now p.1 p.2 with
    | .error failure => (.error failure, w)
    | .ok (account, live) =>
      match req.issuer account.sid with
      | .error failure => (.error failure, w)
      | .ok response =>
        (.ok ⟨account, response⟩,
          match live with
          | some grant => touch b w req.delivery account grant req.now
          | none => w)

/-- The route. -/
def ticket (b : Broker) (w : World server) (req : TicketRequest) :
    Except Failure Exchanged × World server :=
  if !req.slot then (.error ⟨429, "too many requests in flight"⟩, w)
  else
    match b.source req.source with
    | none => (.error ⟨404, "no such source"⟩, w)
    | some src => issue b src w req

/-- When a grant of a key ends: at its stamp, or when it is as old as grants may get. -/
def endOf (g : DeviceGrant) (grantDays : ℕ) : ℕ := min g.stop (g.start + grantDays * 86400)

/-- An object carries a readable grant of a key that has not ended. -/
def Live (e : Entry) (thumbprint : String) (now : ℤ) (grantDays : ℕ) : Prop :=
  ∃ v ∈ e.attrs "extensionName", ∃ g, DeviceGrant.decode v = .ok g ∧
    g.thumbprint = thumbprint ∧ now < endOf g grantDays

/-- The first readable grant of a key on an object has not ended. -/
def FirstLive (e : Entry) (thumbprint : String) (now : ℤ) (grantDays : ℕ) : Prop :=
  ∀ g, (grantsOf e).find? (fun g => decide (g.thumbprint = thumbprint)) = some g →
    now < endOf g grantDays

/-- Everything an exchange on a device assertion must meet. -/
structure Entitled (b : Broker) (r : Realm server) (src : SourceState) (now : ℤ)
    (assertion : String) (key : List UInt8) (identity : ExternalIdentity) (e : Entry)
    (account : Account) : Prop where
  enabled : b.grantDays ≠ 0
  signed : Signed assertion key identity
  source : identity.source = src.source
  sole : Sole r b.baseDn (fun o => BrokerDirectory.Target.Names server o (.identity identity)) e
  usable : Usable e account
  admission : InRole (b.directory src) r roleAdmission e
  grant : InRole (b.directory src) r roleDeviceGrant e
  live : Live e (thumbprint key) now b.grantDays

omit [UnicodeTables] [DeviceLibraries] in
/-- The deadline of a grant that is read needs no bound of its own. -/
theorem effectiveEnd_eq {v : String} {g : DeviceGrant} (h : DeviceGrant.decode v = .ok g)
    (grantDays : ℕ) : g.effectiveEnd grantDays = endOf g grantDays := by
  have hstop : g.stop < 0x10000000000000000 := (decode_wellFormed h).stop
  unfold DeviceGrant.effectiveEnd endOf
  omega

omit [UnicodeTables] [DeviceLibraries] in
/-- An account's grants are those of its object. -/
theorem grants_of_usable {e : Entry} {account : Account} (h : Usable e account) :
    account.grants = grantsOf e := h.grants

omit [UnicodeTables] [DeviceLibraries] in
/-- The grant check passes when the first grant of the key has not ended. -/
theorem liveGrant_ok_iff {e : Entry} {account : Account} (h : Usable e account) {days : ℕ}
    {thumbprint : String} {now : ℤ} (hnow : 0 ≤ now) {g : DeviceGrant} :
    liveGrant days account thumbprint now = .ok g ↔
      (grantsOf e).find? (fun g => decide (g.thumbprint = thumbprint)) = some g ∧
        now < endOf g days := by
  have hend : (grantsOf e).find? (fun g => decide (g.thumbprint = thumbprint)) = some g →
      (g.validAt now.toNat days = true ↔ now < endOf g days) := by
    intro hfind
    obtain ⟨v, _, hv⟩ := List.mem_filterMap.mp (List.mem_of_find?_eq_some hfind)
    rw [DeviceGrant.validAt, decide_eq_true_eq, effectiveEnd_eq (toOption_eq_some_iff.mp hv)]
    omega
  unfold liveGrant
  rw [bind_ok_iff, grants_of_usable h]
  constructor
  · rintro ⟨g', hg', hvalid⟩
    obtain ⟨hvalid, heq⟩ := refuse_ok_iff.mp hvalid
    cases heq
    have hfind := require_ok_iff.mp hg'
    exact ⟨hfind, (hend hfind).mp (by simpa using hvalid)⟩
  · rintro ⟨hfind, hlive⟩
    refine ⟨g, require_ok_iff.mpr hfind, refuse_ok_iff.mpr ⟨?_, rfl⟩⟩
    simpa using (hend hfind).mpr hlive

omit [UnicodeTables] in
/-- A device that is identified signed the assertion, with the feature on. -/
theorem identified_device {b : Broker} {src : SourceState} {nonces : Nonces} {now : ℤ}
    {header : Option String} {assertion : String} (hp : proof header = some (.deviceGrant assertion))
    {identity : ExternalIdentity} {device : Option String}
    (h : (identified b src nonces now header).1 = .ok (identity, device)) :
    b.grantDays ≠ 0 ∧ ∃ key, Signed assertion key identity ∧ device = some (thumbprint key) := by
  unfold identified at h
  simp only [hp] at h
  by_cases hdays : b.grantDays = 0
  · simp [hdays] at h
  · rw [if_neg hdays] at h
    obtain ⟨p, hp, heq⟩ := map_ok_iff.mp h
    obtain ⟨key, hsigned, hthumb⟩ := verify_ok (mapError_ok_iff.mp hp)
    cases heq
    exact ⟨hdays, key, hsigned, by rw [hthumb]⟩

omit [UnicodeTables] [DeviceLibraries] in
/-- What a device is admitted on. -/
theorem admitted_ok_iff {b : Broker} {src : SourceState} {r : Realm server} {now : ℤ}
    {identity : ExternalIdentity} {thumbprint : String} {account : Account}
    {live : Option DeviceGrant} :
    admitted b src r now identity (some thumbprint) = .ok (account, live) ↔
      identity.source = src.source ∧
      (∃ e, Sole r b.baseDn
          (fun o => BrokerDirectory.Target.Names server o (.identity identity)) e ∧
        Usable e account ∧ InRole (b.directory src) r roleAdmission e ∧
        InRole (b.directory src) r roleDeviceGrant e) ∧
      ∃ g, liveGrant b.grantDays account thumbprint now = .ok g ∧ live = some g := by
  have hsame : ∀ u, sameSource src identity = .ok u ↔ identity.source = src.source := by
    intro u
    unfold sameSource
    split
    · rename_i h
      exact ⟨fun _ => h, fun _ => rfl⟩
    · rename_i h
      constructor
      · intro hc
        cases hc
      · intro hc
        exact absurd hc h
  have hfind := findAccount_ok_iff (b.directory src) r (.identity identity) true (a := account)
  simp only [admitted, bind_ok_iff, mapError_ok_iff, hsame, resolveForGrant]
  rw [BrokerDirectory.Target.ldapFilter_identity] at hfind
  constructor
  · rintro ⟨_, hsource, account', hlookup, g, hlive, heq⟩
    cases heq
    obtain ⟨e, hsole, husable, hin, hgrant⟩ := hfind.mp hlookup
    exact ⟨hsource, ⟨e, hsole, husable, hin, hgrant rfl⟩, g, hlive, rfl⟩
  · rintro ⟨hsource, ⟨e, hsole, husable, hin, hgrant⟩, g, hlive, rfl⟩
    exact ⟨(), hsource, account, hfind.mpr ⟨e, hsole, husable, hin, fun _ => hgrant⟩, g, hlive, rfl⟩

/-- What an exchange that ends well has passed. -/
theorem ticket_ok {b : Broker} {w : World server} {req : TicketRequest} {x : Exchanged}
    (h : (ticket b w req).1 = .ok x) :
    0 ≤ req.now ∧ ∃ src, b.source req.source = some src ∧
      ∃ identity device live,
        (identified b src w.nonces req.now req.header).1 = .ok (identity, device) ∧
        admitted b src w.realm req.now identity device = .ok (x.account, live) := by
  unfold ticket at h
  split at h
  · cases h
  · cases hsrc : b.source req.source with
    | none => simp [hsrc] at h
    | some src =>
      simp only [hsrc] at h
      unfold issue at h
      split at h
      · cases h
      · rename_i hnow
        dsimp only at h
        cases hf : (identified b src w.nonces req.now req.header).1 with
        | error failure => simp [hf, Except.bind] at h
        | ok p =>
          obtain ⟨identity, device⟩ := p
          cases ha : admitted b src w.realm req.now identity device with
          | error failure => simp [hf, ha, Except.bind] at h
          | ok q =>
            obtain ⟨account, live⟩ := q
            simp only [hf, ha, Except.bind] at h
            cases hi : req.issuer account.sid with
            | error failure => simp [hi] at h
            | ok response =>
              simp only [hi, Except.ok.injEq] at h
              refine ⟨by omega, src, rfl, identity, device, live, hf, ?_⟩
              rw [← h]
              exact ha

/-- A ticket is issued on a device assertion only to what is entitled to it. -/
theorem ticket_entitled {b : Broker} {w : World server} {req : TicketRequest} {x : Exchanged}
    {assertion : String} (hp : proof req.header = some (.deviceGrant assertion))
    (h : (ticket b w req).1 = .ok x) :
    ∃ src key identity e, b.source req.source = some src ∧
      Entitled b w.realm src req.now assertion key identity e x.account := by
  obtain ⟨hnow, src, hsrc, identity, device, live, hid, hadmit⟩ := ticket_ok h
  obtain ⟨hdays, key, hsigned, rfl⟩ := identified_device hp hid
  obtain ⟨hsource, ⟨e, hsole, husable, hin, hgrant⟩, g, hlive, _⟩ := admitted_ok_iff.mp hadmit
  obtain ⟨hfind, hend⟩ := (liveGrant_ok_iff husable hnow).mp hlive
  obtain ⟨v, hv, hread⟩ := List.mem_filterMap.mp (List.mem_of_find?_eq_some hfind)
  have hthumb : g.thumbprint = thumbprint key := by simpa using List.find?_some hfind
  exact ⟨src, key, identity, e, hsrc, hdays, hsigned, hsource, hsole, husable, hin, hgrant,
    v, hv, g, toOption_eq_some_iff.mp hread, hthumb, hend⟩

omit [UnicodeTables] in
/-- Something entitled to a ticket passes the grant check exactly when the first grant
of its key has not ended. -/
theorem liveGrant_entitled_iff {b : Broker} {r : Realm server} {src : SourceState} {now : ℤ}
    {assertion : String} {key : List UInt8} {identity : ExternalIdentity} {e : Entry}
    {account : Account} (hnow : 0 ≤ now)
    (h : Entitled b r src now assertion key identity e account) :
    (∃ g, liveGrant b.grantDays account (thumbprint key) now = .ok g) ↔
      FirstLive e (thumbprint key) now b.grantDays := by
  constructor
  · rintro ⟨g, hg⟩ g' hfind
    obtain ⟨hfind', hend⟩ := (liveGrant_ok_iff h.usable hnow).mp hg
    rw [hfind'] at hfind
    cases hfind
    exact hend
  · intro hfirst
    obtain ⟨v, hv, g, hread, hthumb, _⟩ := h.live
    have hmem : g ∈ grantsOf e :=
      List.mem_filterMap.mpr ⟨v, hv, toOption_eq_some_iff.mpr hread⟩
    cases hfind : (grantsOf e).find? (fun g => decide (g.thumbprint = thumbprint key)) with
    | none =>
      rw [List.find?_eq_none] at hfind
      exact absurd hthumb (by simpa using hfind g hmem)
    | some g' =>
      exact ⟨g', (liveGrant_ok_iff h.usable hnow).mpr ⟨hfind, hfirst g' hfind⟩⟩

/-- From a time on, every grant of a key on the object of a name has ended: none is
there, or none is left within its stamp and the age grants may get. -/
def Barred (b : Broker) (r : Realm server) (dn thumbprint : String) (since : ℤ) : Prop :=
  ∀ e ∈ r.entries, e.dn = dn → ∀ v ∈ e.attrs "extensionName", ∀ g,
    DeviceGrant.decode v = .ok g → g.thumbprint = thumbprint → (endOf g b.grantDays : ℤ) ≤ since

omit [DeviceLibraries] in
/-- A stamp of use is written over one grant, or nothing is. -/
theorem touch_cases (b : Broker) (w : World server) (delivery : Delivery) (account : Account)
    (grant : DeviceGrant) (now : ℤ) :
    (touch b w delivery account grant now).realm = w.realm ∨
      ∃ c, Issuerd.touchChange b.issuer w.realm account.sid grant.thumbprint
          (UInt64.ofNat now.toNat) = .ok c ∧
        Issuerd.settle w.realm c = .ok (touch b w delivery account grant now).realm := by
  unfold touch
  split
  · exact Or.inl rfl
  · dsimp only
    split
    · rename_i r hw
      exact Or.inr (bind_ok_iff.mp hw)
    · rename_i r hw
      exact Or.inr (bind_ok_iff.mp hw)
    · exact Or.inl rfl

omit [DeviceLibraries] in
/-- A stamp of use moves no deadline. -/
theorem barred_touch {b : Broker} {w : World server} {dn thumbprint : String} {since : ℤ}
    (h : Barred b w.realm dn thumbprint since) (delivery : Delivery) (account : Account)
    (grant : DeviceGrant) (now : ℤ) :
    Barred b (touch b w delivery account grant now).realm dn thumbprint since := by
  rcases touch_cases b w delivery account grant now with hsame | ⟨c, hc, hr⟩
  · rw [hsame]
    exact h
  · obtain ⟨e, he, hsome⟩ := Issuerd.touchChange_some hc
    cases c with
    | none =>
      have heq := Except.ok.inj hr
      rw [← heq]
      exact h
    | some c =>
      obtain ⟨hdn, raw, g, hraw, hread, _, hdelete, hadd⟩ := hsome c rfl
      obtain ⟨hrealm, _⟩ := Issuerd.ldbmodify_ok he hdn hr
      have hmem : e ∈ w.realm.entries := by
        have hone : e ∈ Issuerd.found b.issuer w.realm account.sid := by
          rw [he]
          exact List.mem_singleton_self e
        exact (List.mem_filter.mp hone).1
      rw [hrealm]
      intro o ho hname v hv g' hg' hthumb
      obtain ⟨p, hp, rfl⟩ := List.mem_map.mp ho
      by_cases hsame : server.sameDn p.dn e.dn = true
      · obtain rfl := w.realm.eq_of_sameDn hp hmem hsame
        rw [if_pos hsame] at hname hv
        rw [Issuerd.changed_values, List.mem_append, hadd, List.mem_singleton] at hv
        rcases hv with hold | hnew
        · exact h p hp hname v (List.mem_filter.mp hold).1 g' hg' hthumb
        · rw [hnew, Issuerd.decode_seen hread] at hg'
          cases hg'
          exact h p hp hname raw hraw g hread hthumb
      · rw [if_neg hsame] at hname hv
        exact h p hp hname v hv g' hg' hthumb

/-- An exchange moves no deadline. -/
theorem barred_ticket {b : Broker} {w : World server} {dn thumbprint : String} {since : ℤ}
    (h : Barred b w.realm dn thumbprint since) (req : TicketRequest) :
    Barred b (ticket b w req).2.realm dn thumbprint since := by
  unfold ticket
  split
  · exact h
  · split
    · exact h
    · unfold issue
      split
      · exact h
      · dsimp only
        split
        · exact h
        · split
          · exact h
          · split
            · dsimp only
              refine barred_touch ?_ _ _ _ _
              exact h
            · exact h

/-- While a key is barred on an object, no exchange on an assertion of the key is
answered with a ticket for it. -/
def Refused (b : Broker) (dn thumbprint' : String) (w : World server) (req : TicketRequest) :
    Prop :=
  ∀ assertion key identity x, proof req.header = some (.deviceGrant assertion) →
    Signed assertion key identity → thumbprint key = thumbprint' →
    (ticket b w req).1 = .ok x → x.account.dn ≠ dn

/-- A barred key is refused, at any later clock reading. -/
theorem refused_of_barred {b : Broker} {w : World server} {dn thumbprint' : String} {since : ℤ}
    (h : Barred b w.realm dn thumbprint' since) {req : TicketRequest} (hnow : since ≤ req.now) :
    Refused b dn thumbprint' w req := by
  intro assertion key identity x hp hsigned hthumb hok hdn
  obtain ⟨src, key', identity', e, _, hent⟩ := ticket_entitled hp hok
  obtain ⟨rfl, rfl⟩ := hsigned.unique hent.signed
  obtain ⟨v, hv, g, hread, hg, hend⟩ := hent.live
  have hname : e.dn = dn := by
    rw [← hent.usable.dn]
    exact hdn
  have hover := h e hent.sole.1.1 hname v hv g hread (hg.trans hthumb)
  omega

/-- The exchange rule: a ticket on a device assertion is issued only to what is entitled
to it, a key whose grants have all ended stays refused through any later exchanges, and
something entitled to a ticket passes the grant check exactly when the first readable
grant of its key has not ended. -/
theorem ticket_rule (b : Broker) (w : World server) :
    (∀ req assertion x, proof req.header = some (.deviceGrant assertion) →
      (ticket b w req).1 = .ok x →
      ∃ src key identity e, b.source req.source = some src ∧
        Entitled b w.realm src req.now assertion key identity e x.account) ∧
    (∀ dn thumbprint' since reqs, Barred b w.realm dn thumbprint' since →
      (∀ req ∈ reqs, since ≤ req.now) →
      Everywhere (fun w req => (ticket b w req).2) (Refused b dn thumbprint') w reqs) ∧
    ∀ src now assertion key identity e account, 0 ≤ now →
      Entitled b w.realm src now assertion key identity e account →
      ((∃ g, liveGrant b.grantDays account (thumbprint key) now = .ok g) ↔
        FirstLive e (thumbprint key) now b.grantDays) := by
  refine ⟨fun req assertion x hp h => ticket_entitled hp h, ?_, ?_⟩
  · intro dn thumbprint' since reqs hbarred hnow
    induction reqs generalizing w with
    | nil => trivial
    | cons req reqs ih =>
      refine ⟨refused_of_barred hbarred (hnow req List.mem_cons_self), ?_⟩
      exact ih _ (barred_ticket hbarred req) fun r hr => hnow r (List.mem_cons_of_mem _ hr)
  · intro src now assertion key identity e account hnow h
    exact liveGrant_entitled_iff hnow h

section EarlierGrant

/-- A grant of the key that has ended by the time of the request. -/
def endedGrant : DeviceGrant := ⟨"", .es256, ownThumbprint, 1, 40, none⟩

/-- A later grant of the same key. -/
def laterGrant : DeviceGrant := ⟨"", .es256, ownThumbprint, 2, 100, none⟩

/-- An admitted and granted account with both grants, the ended one first. -/
def earlierEntry : Entry :=
  listed "CN=a,O=x" [[1, 1, 0, 0, 0, 0, 0, 5, 18, 0, 0, 0]] [("objectClass", ["user"]),
    ("sAMAccountName", ["a"]), ("userAccountControl", ["512"]),
    ("msDS-ExternalDirectoryObjectId", ["kb1|s|a"]), ("memberOf", ["CN=r,O=x", "CN=g,O=x"]),
    ("extensionName", [endedGrant.encode, laterGrant.encode])]

/-- The account and the role groups. -/
def earlierRealm : Realm plainServer where
  entries := [earlierEntry, roleEntry "CN=r,O=x" roleAdmission,
    roleEntry "CN=g,O=x" roleDeviceGrant]
  distinct := by
    simp [plainServer, earlierEntry, roleEntry, listed, eqIgnoreAsciiCase]
  backlinks := by
    intro e he g hg
    simp only [List.mem_cons, List.not_mem_nil, or_false] at he
    rcases he with rfl | rfl | rfl
    · simp [earlierEntry, listed, List.lookup_cons] at hg
    · simp [roleEntry, listed, List.lookup_cons] at hg
    · simp [roleEntry, listed, List.lookup_cons] at hg

/-- The account as it is read. -/
def earlierAccount : Account :=
  ⟨"S-1-5-18", "a", "kb1|s|a", "CN=a,O=x", [], [endedGrant, laterGrant]⟩

omit [UnicodeTables] [DeviceLibraries] in
/-- Both values are read as the grants they were written from. -/
theorem decode_earlier : DeviceGrant.decode endedGrant.encode = .ok endedGrant ∧
    DeviceGrant.decode laterGrant.encode = .ok laterGrant := by
  have hthumb : isThumbprint ownThumbprint = true := by decide
  refine ⟨decode_encode ⟨rfl, hthumb, ?_, ?_, ?_⟩, decode_encode ⟨rfl, hthumb, ?_, ?_, ?_⟩⟩
  · decide
  · decide
  · simp [endedGrant]
  · decide
  · decide
  · simp [laterGrant]

omit [UnicodeTables] [DeviceLibraries] in
/-- The object's values. -/
theorem values_earlier :
    earlierEntry.attrs "extensionName" = [endedGrant.encode, laterGrant.encode] := by
  simp [earlierEntry, listed, List.lookup_cons]

omit [UnicodeTables] [DeviceLibraries] in
/-- A group that carries a role marker is the only object that does. -/
theorem inRole_earlier (dn : String) {marker : String} (hg : roleEntry dn marker ∈ earlierRealm.entries)
    (hbelow : plainServer.within dn "O=x" = true) (hunread : startsWith marker grantPrefix = false)
    (hsole : ∀ o ∈ earlierRealm.entries, o ≠ earlierEntry →
      marker ∈ o.attrs "extensionName" → o = roleEntry dn marker)
    (hmember : dn ∈ earlierEntry.attrs "memberOf") :
    InRole (sharedBroker.directory sharedSource) earlierRealm marker earlierEntry := by
  refine ⟨roleEntry dn marker, ⟨⟨hg, hbelow, ?_⟩, ?_⟩, ?_⟩
  · simp [has_plainServer_iff, roleEntry, listed, List.lookup_cons]
  · intro o ho _ hhas
    rw [has_plainServer_iff] at hhas
    by_cases hself : o = earlierEntry
    · rw [hself, values_earlier, List.mem_cons, List.mem_singleton] at hhas
      have htag := startsWith_of_decode decode_earlier.1
      have htag' := startsWith_of_decode decode_earlier.2
      rcases hhas with heq | heq
      · rw [← heq, hunread] at htag
        cases htag
      · rw [← heq, hunread] at htag'
        cases htag'
    · exact hsole o ho hself hhas
  · exact Relation.TransGen.single ⟨earlierEntry, List.mem_cons_self, rfl, hmember⟩

omit [UnicodeTables] [DeviceLibraries] in
/-- The key is entitled to a ticket, by its later grant. -/
theorem entitled_earlier {now : ℤ} (hnow : now < 100) :
    @Entitled plainServer ownLibraries sharedBroker earlierRealm sharedSource now "p.s" ownKey
      askingIdentity earlierEntry earlierAccount := by
  let _ := ownLibraries
  have hencode : askingIdentity.encode = "kb1|s|a" := by decide
  have hthumb : @thumbprint ownLibraries ownKey = ownThumbprint := by decide
  have hmembers : earlierEntry.attrs "memberOf" = ["CN=r,O=x", "CN=g,O=x"] := by
    simp [earlierEntry, listed, List.lookup_cons]
  have hothers : ∀ o ∈ earlierRealm.entries, o ≠ earlierEntry →
      o = roleEntry "CN=r,O=x" roleAdmission ∨ o = roleEntry "CN=g,O=x" roleDeviceGrant := by
    intro o ho hne
    simp only [earlierRealm, List.mem_cons, List.not_mem_nil, or_false] at ho
    rcases ho with rfl | ho
    · exact absurd rfl hne
    · exact ho
  refine ⟨by decide, signed_shared, rfl, ⟨⟨List.mem_cons_self, by decide, ?_⟩, ?_⟩, ?_, ?_, ?_, ?_⟩
  · simp [BrokerDirectory.Target.Names, has_plainServer_iff, hencode, earlierEntry, listed,
      List.lookup_cons]
  · intro o ho _ hnames
    by_contra hne
    rcases hothers o ho hne with rfl | rfl
    · simp [BrokerDirectory.Target.Names, has_plainServer_iff, roleEntry, listed,
        List.lookup_cons] at hnames
    · simp [BrokerDirectory.Target.Names, has_plainServer_iff, roleEntry, listed,
        List.lookup_cons] at hnames
  · refine ⟨⟨"512", 512, ?_, ?_, ?_⟩, ?_, ?_, ?_, rfl, ?_, ?_⟩
    · decide
    · decide
    · decide
    · decide
    · decide
    · decide
    · decide
    · rw [values_earlier]
      simp [decode_earlier, Except.toOption, earlierAccount]
  · refine inRole_earlier "CN=r,O=x" (by simp [earlierRealm]) (by decide) (by decide) ?_
      (by simp [hmembers])
    intro o ho hne hmem
    rcases hothers o ho hne with rfl | rfl
    · rfl
    · simp [roleEntry, listed, List.lookup_cons, roleAdmission, roleDeviceGrant] at hmem
  · refine inRole_earlier "CN=g,O=x" (by simp [earlierRealm]) (by decide) (by decide) ?_
      (by simp [hmembers])
    intro o ho hne hmem
    rcases hothers o ho hne with rfl | rfl
    · simp [roleEntry, listed, List.lookup_cons, roleAdmission, roleDeviceGrant] at hmem
    · rfl
  · refine ⟨laterGrant.encode, by simp [values_earlier], laterGrant, decode_earlier.2, ?_, ?_⟩
    · rw [hthumb]
      rfl
    · have hend : endOf laterGrant sharedBroker.grantDays = 100 := by decide
      omega

/-- The directory of the account, and no nonce. -/
def earlierWorld : World plainServer := ⟨earlierRealm, fun _ => none⟩

omit [UnicodeTables] [DeviceLibraries] in
/-- The exchange rule on the account while both grants run: the grant check passes
exactly when the first one has not ended. -/
theorem ticket_rule_earlier :
    (∃ g, liveGrant sharedBroker.grantDays earlierAccount (@thumbprint ownLibraries ownKey) 20 =
        .ok g) ↔
      FirstLive earlierEntry (@thumbprint ownLibraries ownKey) 20 sharedBroker.grantDays :=
  (@ticket_rule plainServer asciiTables ownLibraries sharedBroker earlierWorld).2.2 sharedSource 20
    "p.s" ownKey askingIdentity earlierEntry earlierAccount (by decide)
    (entitled_earlier (by decide))

omit [UnicodeTables] [DeviceLibraries] in
/-- The key is entitled to a ticket, and the grant check refuses it: the first grant of
the key has ended, and the one that has not is not looked at. -/
theorem ended_grant_refuses :
    @Entitled plainServer ownLibraries sharedBroker earlierRealm sharedSource 50 "p.s" ownKey
        askingIdentity earlierEntry earlierAccount ∧
      liveGrant sharedBroker.grantDays earlierAccount (@thumbprint ownLibraries ownKey) 50 =
        .error unauthorized := by
  refine ⟨entitled_earlier (by decide), ?_⟩
  decide

end EarlierGrant

end Kerbridge.BrokerDevices

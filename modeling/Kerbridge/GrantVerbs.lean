import Kerbridge.GrantReading
import Kerbridge.Issuerd

/-!
# Recording, removing and stamping grants

Each verb of the issuer in its two parts: what it decides from one lookup of the
account, and the one change it then makes. The change is made as a whole or not at
all: a value to delete must be there, and a value to add must not.
-/

namespace Kerbridge.Issuerd

open UnicodeText StoredIdentity DeviceGrants RealmDirectory RealmState Fallible

/-- Why a verb fails. -/
inductive VerbError where
  | refused (why : IssueError)
  | capReached
  /-- The change is refused by the directory, or never reaches it. -/
  | failed
  deriving DecidableEq

/-- The text a caller is told. -/
def VerbError.client : VerbError → String
  | .refused why => why.client
  | .capReached => "device grant cap reached"
  | .failed => "issuer failed"

/-- A request to record a grant. -/
structure GrantRequest where
  label : String
  alg : String
  thumbprint : String
  expiresAt : UInt64

/-- One request on an account. -/
inductive Verb where
  | grant (req : GrantRequest)
  | revoke (thumbprint : String)
  | touch (thumbprint : String) (seen : UInt64)

/-- The key a request is about. -/
def Verb.thumbprint : Verb → String
  | .grant req => req.thumbprint
  | .revoke thumbprint => thumbprint
  | .touch thumbprint _ => thumbprint

/-- One delete-then-add of values on the object of a name. -/
structure Change where
  dn : String
  delete : List String
  add : List String

/-- Every stored grant value, readable or not. -/
def stored (t : Target) : ℕ := (t.account.markers.filter fun m => startsWith m grantPrefix).length

/-- The grant a request records. -/
def GrantRequest.value (req : GrantRequest) (alg : Algorithm) (start : UInt64) : DeviceGrant where
  label := sanitizeLabel req.label
  alg := alg
  thumbprint := req.thumbprint
  start := start.toNat
  stop := req.expiresAt.toNat
  seen := none

variable {server : Server} [UnicodeTables]

/-- What recording a grant changes: any grant of the same key is replaced. The cap
bounds new keys. -/
def grantChange (cfg : Config) (maxGrants : ℕ) (r : Realm server) (sid : String)
    (req : GrantRequest) (now : UInt64) : Except VerbError (Option Change) := do
  let alg ← require (.refused .badRequest) (algorithm req.alg)
  if !isThumbprint req.thumbprint then .error (.refused .badRequest)
  else if req.expiresAt ≤ now then .error (.refused .badRequest)
  else do
    let t ← (target cfg r sid).mapError .refused
    let replacing := victims t req.thumbprint
    if replacing.isEmpty = true ∧ maxGrants ≤ stored t then .error .capReached
    else .ok (some ⟨t.account.dn, replacing, [(req.value alg now).encode]⟩)

/-- What a removal changes: nothing when the grant is not there. -/
def revokeChange (cfg : Config) (r : Realm server) (sid thumbprint : String) :
    Except VerbError (Option Change) := do
  let t ← (target cfg r sid).mapError .refused
  let victims := victims t thumbprint
  if victims.isEmpty then .ok none
  else .ok (some ⟨t.account.dn, victims, []⟩)

/-- What a use changes: the stamp of its grant, when the schedule asks for it. -/
def touchChange (cfg : Config) (r : Realm server) (sid thumbprint : String) (seen : UInt64) :
    Except VerbError (Option Change) := do
  let t ← (target cfg r sid).mapError .refused
  match t.grants.find? fun p => decide (p.2.thumbprint = thumbprint) with
  | none => .ok none
  | some (raw, g) =>
    if !needsTouch g.seen seen.toNat then .ok none
    else .ok (some ⟨t.account.dn, [raw], [{ g with seen := some seen.toNat }.encode]⟩)

/-- What a request changes, decided from one lookup. -/
def change (cfg : Config) (maxGrants : ℕ) (r : Realm server) (sid : String) (now : UInt64) :
    Verb → Except VerbError (Option Change)
  | .grant req => grantChange cfg maxGrants r sid req now
  | .revoke thumbprint => revokeChange cfg r sid thumbprint
  | .touch thumbprint seen => touchChange cfg r sid thumbprint seen

omit [UnicodeTables] in
/-- One change, as the directory makes it or refuses it. -/
def ldbmodify (r : Realm server) (c : Change) : Except VerbError (Realm server) :=
  match r.entries.find? fun e => server.sameDn e.dn c.dn with
  | none => .error .failed
  | some e =>
    let values := e.attrs "extensionName"
    if !c.delete.all values.contains then .error .failed
    else if c.add.any (values.filter fun v => !c.delete.contains v).contains then .error .failed
    else .ok (modify r c.dn c.delete c.add)

omit [UnicodeTables] in
/-- The change a request decided on, when there is one. -/
def settle (r : Realm server) : Option Change → Except VerbError (Realm server)
  | none => .ok r
  | some c => ldbmodify r c

/-- A request that nothing overtakes. -/
def Verb.run (cfg : Config) (maxGrants : ℕ) (r : Realm server) (sid : String) (now : UInt64)
    (verb : Verb) : Except VerbError (Realm server) := do
  settle r (← change cfg maxGrants r sid now verb)

/-- A value is a grant of a key. -/
def own (thumbprint value : String) : Bool :=
  match DeviceGrant.decode value with
  | .ok g => decide (g.thumbprint = thumbprint)
  | .error _ => false

omit [UnicodeTables] in
/-- A value is a grant of a key when it is read as one. -/
theorem own_iff {thumbprint value : String} :
    own thumbprint value = true ↔
      ∃ g, DeviceGrant.decode value = .ok g ∧ g.thumbprint = thumbprint := by
  unfold own
  cases DeviceGrant.decode value with
  | error e => simp
  | ok g => simp

omit [UnicodeTables] in
/-- A value is a grant of one key at most. -/
theorem own_unique {thumbprint other value : String} (h : own thumbprint value = true)
    (h' : own other value = true) : thumbprint = other := by
  obtain ⟨g, hg, ht⟩ := own_iff.mp h
  obtain ⟨g', hg', ht'⟩ := own_iff.mp h'
  rw [hg] at hg'
  cases hg'
  rw [← ht, ht']

omit [UnicodeTables] in
/-- A grant of a key carries the tag of a grant. -/
theorem startsWith_of_own {thumbprint value : String} (h : own thumbprint value = true) :
    startsWith value grantPrefix = true := by
  obtain ⟨g, hg, _⟩ := own_iff.mp h
  exact startsWith_of_decode hg

omit [UnicodeTables] in
/-- The grants of a key, among the values an account carries. -/
theorem victims_eq {t : Target} {values : List String}
    (h : t.grants = (values.filter fun m => startsWith m grantPrefix).filterMap
      fun m => (DeviceGrant.decode m).toOption.map fun g => (m, g)) (thumbprint : String) :
    victims t thumbprint = values.filter (own thumbprint) := by
  rw [victims, h]
  clear h
  induction values with
  | nil => rfl
  | cons v values ih =>
    cases hd : DeviceGrant.decode v with
    | error e =>
      have hown : own thumbprint v = false := by simp [own, hd]
      rw [List.filter_cons_of_neg (p := own thumbprint) (by simp [hown]), ← ih]
      by_cases hstart : startsWith v grantPrefix = true
      · simp [hstart, hd, Except.toOption]
      · simp [hstart]
    | ok g =>
      have hstart := startsWith_of_decode hd
      by_cases ht : g.thumbprint = thumbprint
      · have hown : own thumbprint v = true := own_iff.mpr ⟨g, hd, ht⟩
        rw [List.filter_cons_of_pos (p := own thumbprint) hown, ← ih]
        simp [hstart, hd, ht, Except.toOption]
      · have hown : own thumbprint v = false := by simp [own, hd, ht]
        rw [List.filter_cons_of_neg (p := own thumbprint) (by simp [hown]), ← ih]
        simp [hstart, hd, ht, Except.toOption]

/-- What a request changes of an object: what it deletes and what it adds are grants
of its own key, and it adds one at most. -/
structure Verb.Fits (verb : Verb) (maxGrants : ℕ) (values : List String) (c : Change) : Prop where
  deletes : ∀ v ∈ c.delete, own verb.thumbprint v = true ∧ v ∈ values
  adds : ∀ v ∈ c.add, own verb.thumbprint v = true
  few : c.add.length ≤ 1
  /-- Only a new grant deletes nothing: the key had none, and there was room. -/
  fresh : c.delete = [] → (∃ req, verb = .grant req) ∧ c.add ≠ [] ∧
    (∀ v ∈ values, own verb.thumbprint v = false) ∧
    (values.filter fun m => startsWith m grantPrefix).length < maxGrants
  /-- A removal deletes every grant of its key and adds nothing. -/
  removes : ∀ t, verb = .revoke t → c.delete = values.filter (own t) ∧ c.add = []

omit [UnicodeTables] in
/-- The grant a request records is well formed. -/
theorem wellFormed_value {req : GrantRequest} (h : isThumbprint req.thumbprint = true)
    (alg : Algorithm) (start : UInt64) : (req.value alg start).WellFormed := by
  have hstart := start.toNat_lt
  have hstop := req.expiresAt.toNat_lt
  refine ⟨sanitizeLabel_control req.label, h, ?_, ?_, ?_⟩
  · show start.toNat < 0x10000000000000000
    omega
  · show req.expiresAt.toNat < 0x10000000000000000
    omega
  · intro n hn
    cases hn

omit [UnicodeTables] in
/-- Stamping a well-formed grant keeps it well formed. -/
theorem wellFormed_seen {g : DeviceGrant} (h : g.WellFormed) (seen : UInt64) :
    ({ g with seen := some seen.toNat } : DeviceGrant).WellFormed := by
  have hseen := seen.toNat_lt
  refine ⟨h.label, h.thumbprint, h.start, h.stop, ?_⟩
  intro n hn
  cases hn
  show seen.toNat < 0x10000000000000000
  omega

/-- What recording a grant changes. -/
theorem grantChange_ok {cfg : Config} {maxGrants : ℕ} {r : Realm server} {sid : String}
    {req : GrantRequest} {now : UInt64} {c : Option Change}
    (h : grantChange cfg maxGrants r sid req now = .ok c) :
    ∃ e c', found cfg r sid = [e] ∧ c = some c' ∧ c'.dn = e.dn ∧
      (Verb.grant req).Fits maxGrants (e.attrs "extensionName") c' := by
  unfold grantChange at h
  obtain ⟨alg, _, h⟩ := bind_ok_iff.mp h
  obtain ⟨hthumb, h⟩ := refuse_ok_iff.mp h
  obtain ⟨_, h⟩ := refuse_ok_iff.mp h
  obtain ⟨t, ht, h⟩ := bind_ok_iff.mp h
  obtain ⟨hcap, h⟩ := refuse_ok_iff.mp h
  obtain ⟨e, he, hdn, hmarkers, hgrants⟩ := target_ok (mapError_ok_iff.mp ht)
  rw [victims_eq hgrants] at hcap h
  refine ⟨e, _, he, (Except.ok.inj h).symm, hdn, ?_, ?_, le_refl _, ?_, ?_⟩
  · intro v hv
    have hmem := List.mem_filter.mp hv
    exact ⟨hmem.2, hmem.1⟩
  · intro v hv
    obtain rfl := List.mem_singleton.mp hv
    have hvalue := wellFormed_value (by simpa using hthumb) alg now
    exact own_iff.mpr ⟨_, decode_encode hvalue, rfl⟩
  · intro hnone
    have hnone : (e.attrs "extensionName").filter (own req.thumbprint) = [] := hnone
    rw [hnone, stored, hmarkers] at hcap
    refine ⟨⟨req, rfl⟩, List.cons_ne_nil _ _, ?_, by simpa using hcap⟩
    intro v hv
    have hnot := List.filter_eq_nil_iff.mp hnone v hv
    exact Bool.not_eq_true _ ▸ hnot
  · intro t hverb
    cases hverb

/-- What a removal changes: nothing when there is no grant of its key. -/
theorem revokeChange_ok {cfg : Config} {maxGrants : ℕ} {r : Realm server} {sid thumbprint : String}
    {c : Option Change} (h : revokeChange cfg r sid thumbprint = .ok c) :
    ∃ e, found cfg r sid = [e] ∧
      (∀ c' ∈ c, c'.dn = e.dn ∧
        (Verb.revoke thumbprint).Fits maxGrants (e.attrs "extensionName") c') ∧
      (c = none → ∀ v ∈ e.attrs "extensionName", own thumbprint v = false) := by
  unfold revokeChange at h
  obtain ⟨t, ht, h⟩ := bind_ok_iff.mp h
  obtain ⟨e, he, hdn, _, hgrants⟩ := target_ok (mapError_ok_iff.mp ht)
  dsimp only at h
  rw [victims_eq hgrants] at h
  refine ⟨e, he, ?_⟩
  by_cases hempty : ((e.attrs "extensionName").filter (own thumbprint)).isEmpty = true
  · rw [if_pos hempty] at h
    cases h
    refine ⟨by simp, fun _ v hv => ?_⟩
    have hnot := List.filter_eq_nil_iff.mp (List.isEmpty_iff.mp hempty) v hv
    exact Bool.not_eq_true _ ▸ hnot
  · rw [if_neg hempty] at h
    cases h
    refine ⟨?_, by simp⟩
    intro c' hc
    obtain rfl := Option.some.inj hc
    refine ⟨hdn, ?_, by simp, by simp, ?_, ?_⟩
    · intro v hv
      have hmem := List.mem_filter.mp hv
      exact ⟨hmem.2, hmem.1⟩
    · intro hnone
      have hnone : (e.attrs "extensionName").filter (own thumbprint) = [] := hnone
      exact absurd (by rw [hnone]; rfl) hempty
    · intro t' hverb
      cases hverb
      exact ⟨rfl, rfl⟩

/-- What a use changes: the stamp of one grant of its key. -/
theorem touchChange_some {cfg : Config} {r : Realm server} {sid thumbprint : String}
    {seen : UInt64} {c : Option Change} (h : touchChange cfg r sid thumbprint seen = .ok c) :
    ∃ e, found cfg r sid = [e] ∧ ∀ c' ∈ c, c'.dn = e.dn ∧ ∃ raw g,
      raw ∈ e.attrs "extensionName" ∧ DeviceGrant.decode raw = .ok g ∧
        g.thumbprint = thumbprint ∧ c'.delete = [raw] ∧
        c'.add = [{ g with seen := some seen.toNat }.encode] := by
  unfold touchChange at h
  obtain ⟨t, ht, h⟩ := bind_ok_iff.mp h
  obtain ⟨e, he, hdn, _, hgrants⟩ := target_ok (mapError_ok_iff.mp ht)
  refine ⟨e, he, ?_⟩
  cases hfind : t.grants.find? fun p => decide (p.2.thumbprint = thumbprint) with
  | none =>
    rw [hfind] at h
    cases h
    simp
  | some p =>
    obtain ⟨raw, g⟩ := p
    rw [hfind] at h
    dsimp only at h
    have hthumb : g.thumbprint = thumbprint := by simpa using List.find?_some hfind
    have hmem := List.mem_of_find?_eq_some hfind
    rw [hgrants, List.mem_filterMap] at hmem
    obtain ⟨m, hm, hpair⟩ := hmem
    obtain ⟨g', hg', hpair⟩ := Option.map_eq_some_iff.mp hpair
    cases hpair
    have hg := toOption_eq_some_iff.mp hg'
    split at h
    · cases h
      simp
    · intro c' hc
      rw [← Except.ok.inj h] at hc
      obtain rfl := Option.some.inj hc
      exact ⟨hdn, _, g, (List.mem_filter.mp hm).1, hg, hthumb, rfl, rfl⟩

omit [UnicodeTables] in
/-- A stamped grant is read back with its stamp. -/
theorem decode_seen {raw : String} {g : DeviceGrant} (h : DeviceGrant.decode raw = .ok g)
    (seen : UInt64) : DeviceGrant.decode { g with seen := some seen.toNat }.encode =
      .ok { g with seen := some seen.toNat } :=
  decode_encode (wellFormed_seen (decode_wellFormed h) seen)

/-- What a use changes fits the object it found. -/
theorem touchChange_ok {cfg : Config} {maxGrants : ℕ} {r : Realm server} {sid thumbprint : String}
    {seen : UInt64} {c : Option Change} (h : touchChange cfg r sid thumbprint seen = .ok c) :
    ∃ e, found cfg r sid = [e] ∧ ∀ c' ∈ c, c'.dn = e.dn ∧
      (Verb.touch thumbprint seen).Fits maxGrants (e.attrs "extensionName") c' := by
  obtain ⟨e, he, hsome⟩ := touchChange_some h
  refine ⟨e, he, ?_⟩
  intro c' hc
  obtain ⟨hdn, raw, g, hraw, hg, hthumb, hdelete, hadd⟩ := hsome c' hc
  refine ⟨hdn, ?_, ?_, ?_, ?_, by simp⟩
  · intro v hv
    rw [hdelete, List.mem_singleton] at hv
    rw [hv]
    exact ⟨own_iff.mpr ⟨g, hg, hthumb⟩, hraw⟩
  · intro v hv
    rw [hadd, List.mem_singleton] at hv
    rw [hv]
    exact own_iff.mpr ⟨_, decode_seen hg seen, hthumb⟩
  · rw [hadd]
    exact le_refl 1
  · intro hnone
    rw [hdelete] at hnone
    cases hnone

/-- What a request decides fits the object it found. One that changes nothing grants
nothing, and a removal that changes nothing found no grant of its key. -/
theorem change_ok {cfg : Config} {maxGrants : ℕ} {r : Realm server} {sid : String}
    {now : UInt64} {verb : Verb} {c : Option Change}
    (h : change cfg maxGrants r sid now verb = .ok c) :
    ∃ e, found cfg r sid = [e] ∧
      (∀ c' ∈ c, c'.dn = e.dn ∧ verb.Fits maxGrants (e.attrs "extensionName") c') ∧
      (c = none → (∀ req, verb ≠ .grant req) ∧
        ∀ t, verb = .revoke t → ∀ v ∈ e.attrs "extensionName", own t v = false) := by
  cases verb with
  | grant req =>
    obtain ⟨e, c', he, rfl, hdn, hfits⟩ := grantChange_ok h
    refine ⟨e, he, ?_, by simp⟩
    intro c'' hc
    obtain rfl := Option.some.inj hc
    exact ⟨hdn, hfits⟩
  | revoke thumbprint =>
    obtain ⟨e, he, hfits, hnone⟩ := @revokeChange_ok _ _ cfg maxGrants _ _ _ _ h
    refine ⟨e, he, hfits, fun hc => ⟨by simp, ?_⟩⟩
    intro t hverb
    cases hverb
    exact hnone hc
  | touch thumbprint seen =>
    obtain ⟨e, he, hfits⟩ := @touchChange_ok _ _ cfg maxGrants _ _ _ _ _ h
    exact ⟨e, he, hfits, fun _ => ⟨by simp, by simp⟩⟩

omit [UnicodeTables] in
/-- A change keeps the objects of an identifier, in their places. -/
theorem found_modify (cfg : Config) (r : Realm server) (sid dn : String)
    (delete add : List String) :
    found cfg (modify r dn delete add) sid = (found cfg r sid).map fun e =>
      if server.sameDn e.dn dn then changed delete add e else e := by
  have hpass : ∀ e : Entry, (server.within (if server.sameDn e.dn dn then
        changed delete add e else e).dn cfg.baseDn &&
      decide (decodeSidAttr ((if server.sameDn e.dn dn then changed delete add e else e).binAttrs
        "objectSid") ((if server.sameDn e.dn dn then changed delete add e else e).attrs
          "objectSid") = some sid)) =
      (server.within e.dn cfg.baseDn &&
        decide (decodeSidAttr (e.binAttrs "objectSid") (e.attrs "objectSid") = some sid)) := by
    intro e
    split
    · simp [changed]
    · rfl
  unfold found modify
  rw [List.filter_map]
  congr 1
  exact List.filter_congr fun e _ => hpass e

omit [UnicodeTables] in
/-- A change that is made deletes what is there, adds what is not, and leaves the
object of the identifier changed. -/
theorem ldbmodify_ok {cfg : Config} {r r' : Realm server} {sid : String} {e : Entry} {c : Change}
    (he : found cfg r sid = [e]) (hdn : c.dn = e.dn) (h : ldbmodify r c = .ok r') :
    r' = modify r e.dn c.delete c.add ∧
      (∀ v ∈ c.delete, v ∈ e.attrs "extensionName") ∧
      (∀ v ∈ c.add, v ∈ e.attrs "extensionName" → v ∈ c.delete) ∧
      found cfg r' sid = [changed c.delete c.add e] := by
  have hmem : e ∈ r.entries := by
    have hone : e ∈ found cfg r sid := by rw [he]; exact List.mem_singleton_self e
    exact (List.mem_filter.mp hone).1
  have hself := server.sameDn_self e.dn
  unfold ldbmodify at h
  rw [hdn, r.find_of_sameDn hmem hself] at h
  dsimp only at h
  obtain ⟨hdelete, h⟩ := refuse_ok_iff.mp h
  obtain ⟨hadd, h⟩ := refuse_ok_iff.mp h
  cases h
  refine ⟨rfl, by simpa using hdelete, by simpa using hadd, ?_⟩
  rw [found_modify, he, List.map_singleton, if_pos hself]

omit [UnicodeTables] in
/-- The values of an object after a change. -/
theorem changed_values (delete add : List String) (e : Entry) :
    (changed delete add e).attrs "extensionName" =
      (e.attrs "extensionName").filter (fun v => !delete.contains v) ++ add := by
  simp [changed]

omit [UnicodeTables] in
/-- A change that only adds is made when what it adds is not there. -/
theorem ldbmodify_add {cfg : Config} {r : Realm server} {sid : String} {e : Entry} {c : Change}
    (he : found cfg r sid = [e]) (hdn : c.dn = e.dn) (hdelete : c.delete = [])
    (hadd : ∀ v ∈ c.add, v ∉ e.attrs "extensionName") :
    ldbmodify r c = .ok (modify r e.dn c.delete c.add) := by
  have hmem : e ∈ r.entries := by
    have hone : e ∈ found cfg r sid := by rw [he]; exact List.mem_singleton_self e
    exact (List.mem_filter.mp hone).1
  unfold ldbmodify
  rw [hdn, r.find_of_sameDn hmem (server.sameDn_self e.dn)]
  dsimp only
  exact refuse_ok_iff.mpr ⟨by simp [hdelete], refuse_ok_iff.mpr ⟨by simpa [hdelete] using hadd, rfl⟩⟩

end Kerbridge.Issuerd

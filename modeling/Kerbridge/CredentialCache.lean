import Kerbridge.CacheReaders

/-!
# What a credential cache says, to either reader

The two readers walk a cache the same way: they accept the same bytes, fail at the
same place, and agree on all the issuer keeps. Neither leaves the string or fails to
end, and a cache that is written is read back.
-/

namespace Kerbridge

open UnicodeText ByteReader LossyText

namespace CredentialCache

/-- What the issuer keeps of a principal the client has read. -/
def keptPrincipal (p : Krbcred.Principal) : Ccache.Principal := ⟨p.realm, p.components⟩

/-- What the issuer keeps of a credential the client has read. -/
def kept (c : Krbcred.Credential) : Ccache.Credential :=
  ⟨keptPrincipal c.client, keptPrincipal c.server, c.starttime, c.endtime, c.renewTill, c.flags⟩

section Agreement

/-- A string the issuer decodes is bytes the client keeps. -/
theorem agree_bytes : Agree fromUtf8Lossy Krbcred.bytes Ccache.str := by
  intro b pos
  unfold Ccache.str Krbcred.bytes
  rw [bind_run, bind_run]
  cases u32 b pos with
  | error e => rfl
  | ok p =>
    dsimp only
    rw [bind_run]
    cases take p.1.toNat b p.2 with
    | error e => rfl
    | ok q => rfl

/-- Both decode a string alike. -/
theorem agree_str : Agree id Krbcred.str Ccache.str := by
  intro b pos
  have h := agree_bytes b pos
  unfold Krbcred.str
  rw [h, bind_run]
  cases Krbcred.bytes b pos with
  | error e => rfl
  | ok p => rfl

/-- Both read a principal alike. -/
theorem agree_principal : Agree keptPrincipal Krbcred.principal Ccache.principal := by
  unfold Krbcred.principal Ccache.principal
  refine (Agree.refl u32).bind fun nameType => (Agree.refl u32).bind fun n => ?_
  refine agree_str.bind fun realm => ?_
  refine (agree_str.times n.toNat).bind fun components => Agree.pure ?_
  rw [List.map_id]
  rfl

/-- Both pass an address or an authorization datum over alike. -/
theorem agree_typed : Agree id Krbcred.typed Ccache.typed := by
  unfold Krbcred.typed Ccache.typed
  exact (Agree.refl u16).bind fun _ => agree_bytes.bind fun _ => Agree.pure rfl

/-- Both read a credential alike. -/
theorem agree_credential : Agree kept Krbcred.credential Ccache.credential := by
  unfold Krbcred.credential Ccache.credential
  refine agree_principal.bind fun client => agree_principal.bind fun server => ?_
  refine (Agree.refl u16).bind fun keytype => agree_bytes.bind fun key => ?_
  refine (Agree.refl u32).bind fun authtime => (Agree.refl u32).bind fun starttime => ?_
  refine (Agree.refl u32).bind fun endtime => (Agree.refl u32).bind fun renewTill => ?_
  refine (Agree.refl (skip 1)).bind fun _ => (Agree.refl u32).bind fun flags => ?_
  refine (Agree.refl u32).bind fun addresses => (agree_typed.times _).bind fun _ => ?_
  refine (Agree.refl u32).bind fun authdata => (agree_typed.times _).bind fun _ => ?_
  refine agree_bytes.bind fun ticket => agree_bytes.bind fun _ => Agree.pure rfl

/-- Both read a cache alike. -/
theorem agree_cache (size : ℕ) : Agree (List.map kept) (Krbcred.cache size) (Ccache.cache size) := by
  unfold Krbcred.cache Ccache.cache
  refine (Agree.refl u16).bind fun version => ?_
  by_cases h : version = cacheVersion
  · simp only [id_eq, ne_eq, h, not_true_eq_false, if_false]
    refine (Agree.refl u16).bind fun headerLen => (Agree.refl (skip _)).bind fun _ => ?_
    exact agree_principal.bind fun _ => agree_credential.untilEnd size
  · simp only [id_eq, ne_eq, h, not_false_eq_true, if_true]
    intro b pos
    rfl

/-- The issuer's credentials are what it keeps of the client's, and both fail alike. -/
theorem credentials_agree (bytes : List UInt8) :
    Ccache.credentials bytes = (Krbcred.credentials bytes).map (List.map kept) := by
  have h := agree_cache bytes.length bytes 0
  unfold Ccache.credentials Krbcred.credentials readWhole
  rw [h]
  cases Krbcred.cache bytes.length bytes 0 with
  | error e => rfl
  | ok p => rfl

end Agreement

section Bounds

/-- Counted bytes are read inside the string. -/
theorem inside_bytes : Inside 4 Krbcred.bytes := by
  unfold Krbcred.bytes
  exact inside_u32.seq fun len => (inside_take len.toNat).any

/-- A string is read inside the string of bytes. -/
theorem inside_str : Inside 4 Krbcred.str := by
  unfold Krbcred.str
  exact inside_bytes.seq fun _ => Inside.pure _

/-- A principal is read inside the string. -/
theorem inside_principal : Inside 4 Krbcred.principal := by
  unfold Krbcred.principal
  refine inside_u32.seq fun nameType => (inside_u32.seq fun n => ?_).any
  exact (inside_str.seq fun realm => (inside_str.times n.toNat).seq fun _ => Inside.pure _).any

/-- An address or an authorization datum is read inside the string. -/
theorem inside_typed : Inside 2 Krbcred.typed := by
  unfold Krbcred.typed
  exact inside_u16.seq fun _ => (inside_bytes.seq fun _ => Inside.pure _).any

/-- A credential is read inside the string, and takes some of it. -/
theorem inside_credential : Inside 1 Krbcred.credential := by
  refine Inside.mono ?_ (show 1 ≤ 4 by decide)
  unfold Krbcred.credential
  refine inside_principal.seq fun client => (inside_principal.seq fun server => ?_).any
  refine (inside_u16.seq fun keytype => (inside_bytes.seq fun key => ?_).any).any
  refine (inside_u32.seq fun authtime => (inside_u32.seq fun starttime => ?_).any).any
  refine (inside_u32.seq fun endtime => (inside_u32.seq fun renewTill => ?_).any).any
  refine ((inside_skip 1).seq fun _ => (inside_u32.seq fun flags => ?_).any).any
  refine (inside_u32.seq fun addresses => (inside_typed.times _).seq fun _ => ?_).any
  refine (inside_u32.seq fun authdata => (inside_typed.times _).seq fun _ => ?_).any
  exact (inside_bytes.seq fun ticket => (inside_bytes.seq fun _ => Inside.pure _).any).any

/-- The client's reader ends, and never leaves the string. -/
theorem credentials_ordinary {bytes : List UInt8} {e : Fault}
    (h : Krbcred.credentials bytes = .error e) : e.Ordinary := by
  have hcache : EndsOn bytes (Krbcred.cache bytes.length) := by
    unfold Krbcred.cache
    refine inside_u16.endsOn fun version => ?_
    by_cases hversion : version = cacheVersion
    · simp only [hversion, ne_eq, not_true_eq_false, if_false]
      refine inside_u16.endsOn fun headerLen => (inside_skip _).endsOn fun _ => ?_
      exact inside_principal.endsOn fun _ => endsOn_untilEnd inside_credential bytes
    · simp only [hversion, ne_eq, not_false_eq_true, if_true]
      exact endsOn_fail ⟨by simp, by simp⟩
  unfold Krbcred.credentials readWhole at h
  cases hread : Krbcred.cache bytes.length bytes 0 with
  | error e' =>
    rw [hread] at h
    cases h
    exact hcache 0 (Nat.zero_le _) _ hread
  | ok p =>
    rw [hread] at h
    cases h

end Bounds

section Encodings

/-- What a counted part may be at most. -/
def countBound : ℕ := 0x100000000

/-- Counted bytes, as they are written. -/
def putBytes (bytes : List UInt8) : List UInt8 := putU32 (UInt32.ofNat bytes.length) ++ bytes

/-- A counted string. -/
def putStr (s : String) : List UInt8 := putBytes (bytesOf s)

/-- A principal. -/
def putPrincipal (p : Krbcred.Principal) : List UInt8 :=
  putU32 p.nameType ++ (putU32 (UInt32.ofNat p.components.length) ++
    (putStr p.realm ++ p.components.flatMap putStr))

/-- A typed part of a credential: an address or an authorization datum. -/
abbrev Typed := UInt16 × List UInt8

/-- An address or an authorization datum. -/
def putTyped (t : Typed) : List UInt8 := putU16 t.1 ++ putBytes t.2

/-- All a cache holds of one credential. -/
structure Record where
  credential : Krbcred.Credential
  isSkey : UInt8
  addresses : List Typed
  authdata : List Typed
  secondTicket : List UInt8

/-- A credential. -/
def putRecord (r : Record) : List UInt8 :=
  putPrincipal r.credential.client ++ (putPrincipal r.credential.server ++
    (putU16 r.credential.keytype ++ (putBytes r.credential.key ++
      (putU32 r.credential.authtime ++ (putU32 r.credential.starttime ++
        (putU32 r.credential.endtime ++ (putU32 r.credential.renewTill ++
          ([r.isSkey] ++ (putU32 r.credential.flags ++
            (putU32 (UInt32.ofNat r.addresses.length) ++ (r.addresses.flatMap putTyped ++
              (putU32 (UInt32.ofNat r.authdata.length) ++ (r.authdata.flatMap putTyped ++
                (putBytes r.credential.ticket ++ putBytes r.secondTicket))))))))))))))

/-- The counts of a principal hold what they count. -/
structure PrincipalFits (p : Krbcred.Principal) : Prop where
  components : p.components.length < countBound
  realm : (bytesOf p.realm).length < countBound
  each : ∀ s ∈ p.components, (bytesOf s).length < countBound

/-- The counts of a credential hold what they count. -/
structure RecordFits (r : Record) : Prop where
  client : PrincipalFits r.credential.client
  server : PrincipalFits r.credential.server
  key : r.credential.key.length < countBound
  addresses : r.addresses.length < countBound
  eachAddress : ∀ t ∈ r.addresses, t.2.length < countBound
  authdata : r.authdata.length < countBound
  eachDatum : ∀ t ∈ r.authdata, t.2.length < countBound
  ticket : r.credential.ticket.length < countBound
  secondTicket : r.secondTicket.length < countBound

/-- A well-formed cache: its counts hold what they count. -/
structure Cache where
  header : List UInt8
  principal : Krbcred.Principal
  records : List Record
  headerFits : header.length < 0x10000
  principalFits : PrincipalFits principal
  recordsFit : ∀ r ∈ records, RecordFits r

/-- A cache, as it is written. -/
def Cache.encode (c : Cache) : List UInt8 :=
  putU16 cacheVersion ++ (putU16 (UInt16.ofNat c.header.length) ++ (c.header ++
    (putPrincipal c.principal ++ c.records.flatMap putRecord)))

/-- A count is read back as the number it was written from. -/
theorem toNat_count {n : ℕ} (h : n < countBound) : (UInt32.ofNat n).toNat = n := by
  rw [UInt32.toNat_ofNat']
  exact Nat.mod_eq_of_lt h

/-- Counted bytes are read back. -/
theorem reads_bytes {bytes : List UInt8} (h : bytes.length < countBound) :
    Reads Krbcred.bytes (putBytes bytes) bytes := by
  unfold Krbcred.bytes putBytes
  refine (reads_u32 _).bind ?_
  rw [toNat_count h]
  exact reads_take bytes

/-- A counted string is read back. -/
theorem reads_str {s : String} (h : (bytesOf s).length < countBound) :
    Reads Krbcred.str (putStr s) s := by
  unfold Krbcred.str putStr
  refine (reads_bytes h).map ?_
  rw [fromUtf8Lossy_bytesOf]
  exact Reads.pure s

/-- A principal is read back. -/
theorem reads_principal {p : Krbcred.Principal} (h : PrincipalFits p) :
    Reads Krbcred.principal (putPrincipal p) p := by
  unfold Krbcred.principal putPrincipal
  refine (reads_u32 _).bind ((reads_u32 _).bind ((reads_str h.realm).bind ?_))
  rw [toNat_count h.components]
  have hcomponents : Reads (times Krbcred.str p.components.length) (p.components.flatMap putStr)
      (p.components.map id) := Reads.times fun s hs => reads_str (h.each s hs)
  rw [List.map_id] at hcomponents
  exact hcomponents.map (Reads.pure _)

/-- An address or an authorization datum is read over. -/
theorem reads_typed {t : Typed} (h : t.2.length < countBound) :
    Reads Krbcred.typed (putTyped t) () := by
  unfold Krbcred.typed putTyped
  exact (reads_u16 _).bind ((reads_bytes h).map (Reads.pure _))

/-- A counted list of them is read over. -/
theorem reads_typeds {l : List Typed} (hl : l.length < countBound)
    (h : ∀ t ∈ l, t.2.length < countBound) :
    Reads (times Krbcred.typed (UInt32.ofNat l.length).toNat) (l.flatMap putTyped)
      (l.map fun _ => ()) := by
  rw [toNat_count hl]
  exact Reads.times fun t ht => reads_typed (h t ht)

/-- A credential is read back. -/
theorem reads_record {r : Record} (h : RecordFits r) :
    Reads Krbcred.credential (putRecord r) r.credential := by
  unfold Krbcred.credential putRecord
  refine (reads_principal h.client).bind ((reads_principal h.server).bind ?_)
  refine (reads_u16 _).bind ((reads_bytes h.key).bind ?_)
  refine (reads_u32 _).bind ((reads_u32 _).bind ((reads_u32 _).bind ((reads_u32 _).bind ?_)))
  refine (reads_skip [r.isSkey]).bind ((reads_u32 _).bind ?_)
  refine (reads_u32 _).bind ((reads_typeds h.addresses h.eachAddress).bind ?_)
  refine (reads_u32 _).bind ((reads_typeds h.authdata h.eachDatum).bind ?_)
  exact (reads_bytes h.ticket).bind ((reads_bytes h.secondTicket).map (Reads.pure _))

/-- A credential takes some bytes. -/
theorem putRecord_ne_nil (r : Record) : putRecord r ≠ [] := by
  unfold putRecord putPrincipal putU32
  simp

/-- A cache is read back, by the client. -/
theorem credentials_encode (c : Cache) :
    Krbcred.credentials c.encode = .ok (c.records.map Record.credential) := by
  have hheader : (UInt16.ofNat c.header.length).toNat = c.header.length := by
    rw [UInt16.toNat_ofNat']
    exact Nat.mod_eq_of_lt c.headerFits
  have hskip : Reads (skip (UInt16.ofNat c.header.length).toNat) c.header () := by
    rw [hheader]
    exact reads_skip c.header
  have hrecords : ReadsLast (untilEnd Krbcred.credential c.encode.length)
      (c.records.flatMap putRecord) (c.records.map Record.credential) := by
    refine readsLast_untilEnd (fun r hr => reads_record (c.recordsFit r hr))
      (fun r _ => putRecord_ne_nil r) ?_
    change (c.records.flatMap putRecord).length ≤ c.encode.length
    unfold Cache.encode
    simp only [List.length_append]
    omega
  have hcache : ReadsLast (Krbcred.cache c.encode.length) c.encode
      (c.records.map Record.credential) := by
    generalize c.encode.length = size at hrecords
    unfold Krbcred.cache Cache.encode
    refine (reads_u16 cacheVersion).bindLast ?_
    simp only [ne_eq, not_true_eq_false, if_false]
    refine (reads_u16 _).bindLast (hskip.bindLast ?_)
    exact (reads_principal c.principalFits).bindLast hrecords
  unfold Krbcred.credentials readWhole
  have hread := hcache []
  rw [List.nil_append, List.length_nil] at hread
  rw [hread]
  rfl

/-- A cache is read back, by the issuer: what it keeps of it. -/
theorem credentials_encode_kept (c : Cache) :
    Ccache.credentials c.encode = .ok (c.records.map fun r => kept r.credential) := by
  rw [credentials_agree, credentials_encode]
  change Except.ok ((c.records.map Record.credential).map kept) = _
  rw [List.map_map]
  rfl

/-- The issuer accepts what the client accepts, fails where it fails, and reads of the same
credentials the client, the server, the times and the flags. Neither leaves the string
or fails to end, and both read a cache back that was written. -/
theorem cache_readers (bytes : List UInt8) :
    Ccache.credentials bytes = (Krbcred.credentials bytes).map (List.map kept) ∧
    (∀ e, Ccache.credentials bytes = .error e ∨ Krbcred.credentials bytes = .error e →
      e.Ordinary) ∧
    ∀ c : Cache, Krbcred.credentials c.encode = .ok (c.records.map Record.credential) ∧
      Ccache.credentials c.encode = .ok (c.records.map fun r => kept r.credential) := by
  refine ⟨credentials_agree bytes, ?_, ?_⟩
  · intro e h
    rcases h with h | h
    · rw [credentials_agree] at h
      cases hread : Krbcred.credentials bytes with
      | error e' =>
        rw [hread] at h
        cases h
        exact credentials_ordinary hread
      | ok cs =>
        rw [hread] at h
        cases h
    · exact credentials_ordinary h
  · intro c
    exact ⟨credentials_encode c, credentials_encode_kept c⟩

end Encodings

section Sample

/-- A principal of one name. -/
def samplePrincipal (name : String) : Krbcred.Principal := ⟨1, "X", [name]⟩

/-- A short name fits its count. -/
theorem samplePrincipal_fits {name : String} (h : (bytesOf name).length < countBound) :
    PrincipalFits (samplePrincipal name) := by
  refine ⟨by simp [samplePrincipal, countBound], ?_, ?_⟩
  · change (bytesOf "X").length < countBound
    decide
  · intro s hs
    rw [samplePrincipal, List.mem_singleton] at hs
    rw [hs]
    exact h

/-- A credential with a ticket of one byte. -/
def sampleRecord (ticket : UInt8) : Record where
  credential := ⟨samplePrincipal "a", samplePrincipal "krbtgt", 18, [7], 0, 0, 9, 0, 0, [ticket]⟩
  isSkey := 0
  addresses := []
  authdata := []
  secondTicket := []

/-- The counts of the credential hold what they count. -/
theorem sampleRecord_fits (ticket : UInt8) : RecordFits (sampleRecord ticket) where
  client := samplePrincipal_fits (by decide)
  server := samplePrincipal_fits (by decide)
  key := by simp [sampleRecord, countBound]
  addresses := by simp [sampleRecord, countBound]
  eachAddress := by simp [sampleRecord]
  authdata := by simp [sampleRecord, countBound]
  eachDatum := by simp [sampleRecord]
  ticket := by simp [sampleRecord, countBound]
  secondTicket := by simp [sampleRecord, countBound]

/-- A cache of one credential. -/
def sampleCache (ticket : UInt8) : Cache where
  header := []
  principal := samplePrincipal "a"
  records := [sampleRecord ticket]
  headerFits := by decide
  principalFits := samplePrincipal_fits (by decide)
  recordsFit := by
    intro r hr
    rw [List.mem_singleton.mp hr]
    exact sampleRecord_fits ticket

/-- A cache of no credential, whose default principal has a name. -/
def emptyCache (name : String) (h : (bytesOf name).length < countBound) : Cache where
  header := []
  principal := samplePrincipal name
  records := []
  headerFits := by decide
  principalFits := samplePrincipal_fits h
  recordsFit := by simp

/-- What the issuer reads does not tell the ticket the client reads, and what the client
reads does not tell the default principal. -/
theorem ticket_not_read :
    (¬ ∃ tickets : List Ccache.Credential → List (List UInt8), ∀ bytes issuers clients,
      Ccache.credentials bytes = .ok issuers → Krbcred.credentials bytes = .ok clients →
        tickets issuers = clients.map Krbcred.Credential.ticket) ∧
    ¬ ∃ principal : List Krbcred.Credential → Krbcred.Principal, ∀ (c : Cache) (clients : _),
      Krbcred.credentials c.encode = .ok clients → principal clients = c.principal := by
  constructor
  · intro h
    obtain ⟨tickets, h⟩ := h
    have hone := h _ _ _ (credentials_encode_kept (sampleCache 1)) (credentials_encode (sampleCache 1))
    have htwo := h _ _ _ (credentials_encode_kept (sampleCache 2)) (credentials_encode (sampleCache 2))
    have hsame : (sampleCache 1).records.map (fun r => kept r.credential) =
        (sampleCache 2).records.map fun r => kept r.credential := rfl
    rw [hsame, htwo] at hone
    revert hone
    decide
  · intro h
    obtain ⟨principal, h⟩ := h
    have ha := h _ _ (credentials_encode (emptyCache "a" (by decide)))
    have hb := h _ _ (credentials_encode (emptyCache "b" (by decide)))
    have hsame : (emptyCache "a" (by decide)).records.map Record.credential =
        (emptyCache "b" (by decide)).records.map Record.credential := rfl
    rw [hsame, hb] at ha
    have hname := congrArg Krbcred.Principal.components ha
    revert hname
    decide

end Sample

end CredentialCache

end Kerbridge

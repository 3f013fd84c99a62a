import Kerbridge.CacheReaders
import Kerbridge.CivilTime
import Kerbridge.Der

/-!
# A ticket as a credentials message

The client repackages the ticket of a cache as an unencrypted credentials message,
written out by hand. The schema of the message is read back by the distinguished
rules; the ticket itself is the key server's own encoding, and is left as it is.
-/

namespace Kerbridge.Krbcred

open UnicodeText Der CivilTime

/-- The tag of a bit string. -/
def tagBitString : UInt8 := 0x03

/-- The tag of an octet string. -/
def tagOctetString : UInt8 := 0x04

/-- The tag of an integer. -/
def tagInteger : UInt8 := 0x02

/-- The tag of a general string. -/
def tagGeneralString : UInt8 := 0x1b

/-- The tag of a time. -/
def tagGeneralizedTime : UInt8 := 0x18

/-- The tag of a sequence. -/
def tagSequence : UInt8 := 0x30

/-- The tag of an application's own type. -/
def app (n : UInt8) : UInt8 := 0x60 ||| n

/-- A tag, the length of the content, and the content. A length above 127 takes the
long form. -/
def tlv (tag : UInt8) (content : List UInt8) : List UInt8 :=
  let n := content.length
  let length :=
    if n < 0x80 then [UInt8.ofNat n]
    else
      let be := (octets 8 n).dropWhile (· == 0)
      (0x80 ||| UInt8.ofNat be.length) :: be
  tag :: (length ++ content)

/-- The tag of a member of a sequence. -/
def ctxTag (n : UInt8) : UInt8 := 0xa0 ||| n

/-- A member of a sequence. -/
def ctx (n : UInt8) (content : List UInt8) : List UInt8 := tlv (ctxTag n) content

/-- Octets without the leading zeros that no sign needs. -/
def trimSpare : List UInt8 → List UInt8
  | a :: b :: rest => if a = 0 ∧ b &&& 0x80 = 0 then trimSpare (b :: rest) else a :: b :: rest
  | l => l

/-- An integer in as few octets as it needs. -/
def integer (v : ℤ) : List UInt8 := tlv tagInteger (trimSpare (octets 8 (v % 2 ^ 64).toNat))

/-- A string. -/
def generalString (s : String) : List UInt8 := tlv tagGeneralString (bytesOf s)

/-- A number of at least so many digits. -/
def padded (width n : ℕ) : String := String.ofList ((Nat.toDigits 10 n).leftpad width '0')

/-- A time in whole seconds. -/
def kerberosTime (unix : UInt32) : List UInt8 :=
  let (y, m, d) := civilFromDays (unix.toNat / 86400)
  let s := unix.toNat % 86400
  tlv tagGeneralizedTime (bytesOf (padded 4 y ++ padded 2 m ++ padded 2 d ++ padded 2 (s / 3600) ++
    padded 2 (s / 60 % 60) ++ padded 2 (s % 60) ++ "Z"))

/-- The flags of a ticket, the first in the most significant place. -/
def ticketFlags (flags : UInt32) : List UInt8 := tlv tagBitString (0 :: octets 4 flags.toNat)

/-- The name of a principal. -/
def principalName (p : Principal) : List UInt8 :=
  tlv tagSequence (ctx 0 (integer p.nameType.toNat) ++
    ctx 1 (tlv tagSequence (p.components.flatMap generalString)))

/-- The members of what the message says about its ticket. A time of zero is none. -/
def credFields (c : Credential) : List UInt8 :=
  ctx 0 (tlv tagSequence (ctx 0 (integer c.keytype.toNat) ++ ctx 1 (tlv tagOctetString c.key))) ++
    (ctx 1 (generalString c.client.realm) ++ (ctx 2 (principalName c.client) ++
    (ctx 3 (ticketFlags c.flags) ++ (ctx 4 (kerberosTime c.authtime) ++
    ((if c.starttime ≠ 0 then ctx 5 (kerberosTime c.starttime) else []) ++
    (ctx 6 (kerberosTime c.endtime) ++
    ((if c.renewTill ≠ 0 then ctx 7 (kerberosTime c.renewTill) else []) ++
    (ctx 8 (generalString c.server.realm) ++ ctx 9 (principalName c.server)))))))))

/-- What the message says about its ticket. -/
def credInfo (c : Credential) : List UInt8 := tlv tagSequence (credFields c)

/-- The part of the message that would be encrypted. -/
def encPart (c : Credential) : List UInt8 :=
  tlv (app 29) (tlv tagSequence (ctx 0 (tlv tagSequence (credInfo c))))

/-- The whole message. -/
def krbCred (c : Credential) : List UInt8 :=
  tlv (app 22) (tlv tagSequence (ctx 0 (integer 5) ++ (ctx 1 (integer 22) ++
    (ctx 2 (tlv tagSequence c.ticket) ++
    ctx 3 (tlv tagSequence (ctx 0 (integer 0) ++ ctx 2 (tlv tagOctetString (encPart c))))))))

/-- A number of decimal digits. -/
def readNumber (digits : List UInt8) : Option ℕ :=
  if digits.all fun b => decide (48 ≤ b.toNat) && decide (b.toNat ≤ 57) then
    some (digits.foldl (fun acc b => 10 * acc + (b.toNat - 48)) 0)
  else none

/-- The seconds since the epoch of a time, which has no fraction and no zone. -/
def readTime (content : List UInt8) : Option ℤ :=
  if content.length = 15 ∧ content.getLast? = some 0x5a then do
    let y ← readNumber (content.take 4)
    let m ← readNumber ((content.drop 4).take 2)
    let d ← readNumber ((content.drop 6).take 2)
    let h ← readNumber ((content.drop 8).take 2)
    let n ← readNumber ((content.drop 10).take 2)
    let s ← readNumber ((content.drop 12).take 2)
    if Valid y m d ∧ h < 24 ∧ n < 60 ∧ s < 60 then
      some (86400 * ((ordinal y m d : ℤ) - epoch) + 3600 * h + 60 * n + s)
    else none
  else none

/-- Reads a time. -/
def readKerberosTime (bytes : List UInt8) : Option ℤ :=
  (whole tagGeneralizedTime bytes).bind readTime

/-- An integer within bounds. -/
def readWithin (low high : ℤ) (bytes : List UInt8) : Option ℤ :=
  ((whole tagInteger bytes).bind readInteger).bind fun v =>
    if low ≤ v ∧ v ≤ high then some v else none

/-- An integer of thirty-two bits, with a sign. -/
def readInt32 : List UInt8 → Option ℤ := readWithin (-0x80000000) 0x7fffffff

/-- An integer of thirty-two bits. -/
def readUInt32 : List UInt8 → Option ℤ := readWithin 0 0xffffffff

/-- Bits, at least thirty-two of them, as the number the first thirty-two spell. -/
def readFlags (bytes : List UInt8) : Option ℕ :=
  (whole tagBitString bytes).bind fun content =>
    match content with
    | [] => none
    | unused :: bits =>
      if unused.toNat < 8 ∧ 32 + unused.toNat ≤ 8 * bits.length ∧
          value bits % 2 ^ unused.toNat = 0 then
        some (value (bits.take 4))
      else none

/-- A name of a principal, as the schema has it. -/
structure NameValue where
  nameType : ℤ
  nameString : List (List UInt8)

/-- Reads the name of a principal. -/
def readName (bytes : List UInt8) : Option NameValue :=
  (whole tagSequence bytes).bind fun content =>
    (member (ctxTag 0) readInt32 content).bind fun (nameType, rest) =>
      (member (ctxTag 1) (fun names => (whole tagSequence names).bind fun strings =>
        several (whole tagGeneralString) strings.length strings) rest).bind fun (nameString, rest) =>
          ended (⟨nameType, nameString⟩, rest)

/-- Reads a key: its type, and its octets. -/
def readKey (bytes : List UInt8) : Option (ℤ × List UInt8) :=
  (whole tagSequence bytes).bind fun content =>
    (member (ctxTag 0) readInt32 content).bind fun (keyType, rest) =>
      (member (ctxTag 1) (whole tagOctetString) rest).bind fun (key, rest) =>
        ended ((keyType, key), rest)

/-- What a message says about a ticket, as the schema has it. -/
structure InfoValue where
  key : ℤ × List UInt8
  prealm : Option (List UInt8)
  pname : Option NameValue
  flags : Option ℕ
  authtime : Option ℤ
  starttime : Option ℤ
  endtime : Option ℤ
  renewTill : Option ℤ
  srealm : Option (List UInt8)
  sname : Option NameValue
  /-- The addresses, left as they are. -/
  caddr : Option (List UInt8)

/-- Reads what a message says about a ticket. -/
def readInfo (bytes : List UInt8) : Option InfoValue := do
  let content ← whole tagSequence bytes
  let (key, content) ← member (ctxTag 0) readKey content
  let (prealm, content) ← memberOpt (ctxTag 1) (whole tagGeneralString) content
  let (pname, content) ← memberOpt (ctxTag 2) readName content
  let (flags, content) ← memberOpt (ctxTag 3) readFlags content
  let (authtime, content) ← memberOpt (ctxTag 4) readKerberosTime content
  let (starttime, content) ← memberOpt (ctxTag 5) readKerberosTime content
  let (endtime, content) ← memberOpt (ctxTag 6) readKerberosTime content
  let (renewTill, content) ← memberOpt (ctxTag 7) readKerberosTime content
  let (srealm, content) ← memberOpt (ctxTag 8) (whole tagGeneralString) content
  let (sname, content) ← memberOpt (ctxTag 9) readName content
  let (caddr, content) ← memberOpt (ctxTag 10) some content
  ended (⟨key, prealm, pname, flags, authtime, starttime, endtime, renewTill, srealm, sname, caddr⟩,
    content)

/-- A credentials message, as the schema has it. -/
structure CredValue where
  /-- The tickets, left as they are. -/
  tickets : List UInt8
  info : List InfoValue
  nonce : Option ℤ
  timestamp : Option ℤ
  usec : Option ℤ
  /-- The addresses, left as they are. -/
  sAddress : Option (List UInt8)
  rAddress : Option (List UInt8)

/-- Reads the part of a message that is not encrypted, after its tickets. -/
def readPart (tickets bytes : List UInt8) : Option CredValue := do
  let content ← whole (app 29) bytes
  let content ← whole tagSequence content
  let (info, content) ← member (ctxTag 0) (fun infos => (whole tagSequence infos).bind fun infos =>
    several readInfo infos.length infos) content
  let (nonce, content) ← memberOpt (ctxTag 1) readUInt32 content
  let (timestamp, content) ← memberOpt (ctxTag 2) readKerberosTime content
  let (usec, content) ← memberOpt (ctxTag 3) (readWithin 0 999999) content
  let (sAddress, content) ← memberOpt (ctxTag 4) some content
  let (rAddress, content) ← memberOpt (ctxTag 5) some content
  ended (⟨tickets, info, nonce, timestamp, usec, sAddress, rAddress⟩, content)

/-- Reads data under no encryption. -/
def readPlain (bytes : List UInt8) : Option (List UInt8) := do
  let content ← whole tagSequence bytes
  let (_, content) ← member (ctxTag 0) (readWithin 0 0) content
  let (_, content) ← memberOpt (ctxTag 1) readUInt32 content
  let (cipher, content) ← member (ctxTag 2) (whole tagOctetString) content
  ended (cipher, content)

/-- Reads a credentials message whose part under encryption is under none. -/
def readCred (bytes : List UInt8) : Option CredValue := do
  let content ← whole (app 22) bytes
  let content ← whole tagSequence content
  let (_, content) ← member (ctxTag 0) (readWithin 5 5) content
  let (_, content) ← member (ctxTag 1) (readWithin 22 22) content
  let (tickets, content) ← member (ctxTag 2) (whole tagSequence) content
  let (plain, content) ← member (ctxTag 3) readPlain content
  let plain ← ended (plain, content)
  readPart tickets plain

/-- Octets that are no more than memory holds. -/
def Fits (bytes : List UInt8) : Prop := bytes.length < 2 ^ 64

/-- What an element holds fits where the element does. -/
theorem Fits.content {tag : UInt8} {content : List UInt8} (h : Fits (tlv tag content)) :
    Fits content := by
  unfold Fits tlv at h
  simp only [List.length_cons, List.length_append] at h
  unfold Fits
  omega

/-- Parts fit exactly when they do together, and so do their ends. -/
theorem Fits.left {a b : List UInt8} (h : Fits (a ++ b)) : Fits a := by
  unfold Fits at h ⊢
  rw [List.length_append] at h
  omega

/-- The second of two parts fits where both do. -/
theorem Fits.right {a b : List UInt8} (h : Fits (a ++ b)) : Fits b := by
  unfold Fits at h ⊢
  rw [List.length_append] at h
  omega

/-- An element that was written is read, whatever follows it. -/
theorem readElement_tlv {tag : UInt8} (htag : tag.toNat % 32 ≠ 31) {content : List UInt8}
    (h : Fits content) (rest : List UInt8) :
    readElement (tlv tag content ++ rest) = some (tag, content, rest) := by
  unfold tlv
  rw [List.cons_append, List.append_assoc]
  apply readElement_of_length htag
  by_cases hshort : content.length < 0x80
  · rw [if_pos hshort]
    exact readLength_short hshort _
  · rw [if_neg hshort]
    dsimp only
    have hvalue : value ((octets 8 content.length).dropWhile (· == 0)) = content.length := by
      rw [value_dropZeros, value_octets]
      exact Nat.mod_eq_of_lt h
    have hlen : ((octets 8 content.length).dropWhile (· == 0)).length ≤ 8 := by
      have hsub := (List.dropWhile_sublist (· == (0 : UInt8)) (l := octets 8 content.length)).length_le
      rwa [length_octets] at hsub
    have hhead : ((octets 8 content.length).dropWhile (· == 0)).head? ≠ some 0 := by
      intro hzero
      have hnot := List.head?_dropWhile_not (· == (0 : UInt8)) (octets 8 content.length)
      rw [hzero] at hnot
      simp at hnot
    have hcount : ∀ k ≤ 8, (0x80 : UInt8) ||| UInt8.ofNat k = UInt8.ofNat (128 + k) := by decide
    rw [hcount _ hlen, List.cons_append]
    have hread := @readLength_long ((octets 8 content.length).dropWhile (· == 0)) (by omega)
      hhead (by omega) (content ++ rest)
    rwa [hvalue] at hread

/-- An element that was written and stands alone is read. -/
theorem whole_tlv {tag : UInt8} (htag : tag.toNat % 32 ≠ 31) {content : List UInt8}
    (h : Fits content) : whole tag (tlv tag content) = some content := by
  apply whole_of_element
  have hread := readElement_tlv htag h []
  rwa [List.append_nil] at hread

/-- A member that was written is read by its own reader, whatever follows it. -/
theorem member_ctx {α : Type} {n : UInt8} (hn : (ctxTag n).toNat % 32 ≠ 31)
    {inner : List UInt8 → Option α} {content : List UInt8} (h : Fits content) (rest : List UInt8) :
    member (ctxTag n) inner (ctx n content ++ rest) = (inner content).map fun a => (a, rest) := by
  rw [member, ctx, readElement_tlv hn h]
  simp

/-- A member that may be left out is read where it was written. -/
theorem optional_ctx {α : Type} {n : UInt8} (hn : (ctxTag n).toNat % 32 ≠ 31)
    {inner : List UInt8 → Option α} {content : List UInt8} (h : Fits content) (rest : List UInt8) :
    memberOpt (ctxTag n) inner (ctx n content ++ rest) =
      (inner content).map fun a => (some a, rest) := by
  have hhead : (ctx n content ++ rest).head? = some (ctxTag n) := rfl
  rw [memberOpt, if_pos hhead, member_ctx hn h, Option.map_map]
  rfl

/-- A member is left out where another one follows. -/
theorem optional_other {α : Type} {n k : UInt8} (hne : ctxTag k ≠ ctxTag n)
    (inner : List UInt8 → Option α) (content rest : List UInt8) :
    memberOpt (ctxTag n) inner (ctx k content ++ rest) = some (none, ctx k content ++ rest) := by
  apply if_neg
  intro h
  exact hne (Option.some.inj h)

/-- A string is its octets again. -/
theorem whole_generalString {s : String} (h : Fits (bytesOf s)) :
    whole tagGeneralString (generalString s) = some (bytesOf s) :=
  whole_tlv (by decide) h

/-- What the highest bit of an octet says. -/
theorem sign_bit (b : UInt8) : b &&& 0x80 = 0 ↔ b.toNat < 128 := by
  have hbits : ∀ n < 256, (n &&& 0x80 = 0 ↔ n < 128) := by decide +kernel
  rw [← UInt8.toNat_inj, UInt8.toNat_and]
  exact hbits b.toNat b.toNat_lt

/-- Octets that lose spare zeros keep at least one, and spell what they did. -/
theorem trimSpare_spec (l : List UInt8) (hl : l ≠ []) :
    value (trimSpare l) = value l ∧ (trimSpare l).length ≤ l.length ∧
      ∃ b rest, trimSpare l = b :: rest ∧
        (b = 0 → ∀ next ∈ rest.head?, 128 ≤ next.toNat) ∧
        (∀ b₀ ∈ l.head?, b₀.toNat < 128 → b.toNat < 128) := by
  fun_induction trimSpare l with
  | case1 a b rest hspare ih =>
    obtain ⟨hvalue, hlen, b', rest', heq, hnext, hhead⟩ := ih (by simp)
    refine ⟨?_, ?_, b', rest', heq, hnext, ?_⟩
    · rw [hvalue, hspare.1]
      conv_rhs => rw [value]
      simp
    · rw [List.length_cons]
      omega
    · intro b₀ _ _
      exact hhead b rfl ((sign_bit b).mp hspare.2)
  | case2 a b rest hkeep =>
    refine ⟨rfl, Nat.le_refl _, a, b :: rest, rfl, ?_, ?_⟩
    · intro hzero next hnext
      cases hnext
      by_contra hlow
      exact hkeep ⟨hzero, (sign_bit b).mpr (by omega)⟩
    · intro b₀ hb₀ hsmall
      cases hb₀
      exact hsmall
  | case3 l hshort =>
    cases l with
    | nil => exact absurd rfl hl
    | cons a rest =>
      cases rest with
      | nil =>
        refine ⟨rfl, Nat.le_refl _, a, [], rfl, ?_, ?_⟩
        · intro _ next hnext
          cases hnext
        · intro b₀ hb₀ hsmall
          cases hb₀
          exact hsmall
      | cons b rest => exact absurd rfl (hshort a b rest)

/-- The content of a written integer that is not negative. -/
theorem readInteger_trimSpare {n : ℕ} (h : n < 2 ^ 63) :
    readInteger (trimSpare (octets 8 ((n : ℤ) % 2 ^ 64).toNat)) = some (n : ℤ) := by
  have hmod : ((n : ℤ) % 2 ^ 64).toNat = n := by omega
  rw [hmod]
  obtain ⟨hvalue, _, b, rest, heq, hnext, hhead⟩ := trimSpare_spec (octets 8 n) (by simp [octets])
  have hfirst : (UInt8.ofNat (n / 256 ^ 7)).toNat < 128 := by
    rw [UInt8.toNat_ofNat']
    omega
  rw [readInteger_of_value ⟨b, rest, heq, hhead _ rfl hfirst, hnext⟩, hvalue, value_octets,
    Nat.mod_eq_of_lt (by omega)]
  rfl

/-- A written integer fits. -/
theorem fits_trimSpare (n : ℕ) : Fits (trimSpare (octets 8 n)) := by
  have hlen := (trimSpare_spec (octets 8 n) (by simp [octets])).2.1
  unfold Fits
  rw [length_octets] at hlen
  omega

/-- A written integer is read back, when it is within the reader's bounds. -/
theorem readWithin_integer {n : ℕ} (h : n < 2 ^ 63) (low high : ℤ) :
    readWithin low high (integer n) = if low ≤ n ∧ (n : ℤ) ≤ high then some (n : ℤ) else none := by
  rw [readWithin, integer, whole_tlv (by decide) (fits_trimSpare _), Option.bind_some,
    readInteger_trimSpare h, Option.bind_some]

/-- The last member of a sequence. -/
theorem member_last {α : Type} {n : UInt8} (hn : (ctxTag n).toNat % 32 ≠ 31)
    {inner : List UInt8 → Option α} {content : List UInt8} (h : Fits content) :
    member (ctxTag n) inner (ctx n content) = (inner content).map fun a => (a, []) := by
  have hread := @member_ctx _ _ hn inner _ h []
  rwa [List.append_nil] at hread

/-- Strings written one after another are read one after another. -/
theorem several_generalString {components : List String} {rounds : ℕ}
    (hrounds : components.length ≤ rounds) (h : Fits (components.flatMap generalString)) :
    several (whole tagGeneralString) rounds (components.flatMap generalString) =
      some (components.map bytesOf) := by
  induction components generalizing rounds with
  | nil => cases rounds <;> rfl
  | cons s rest ih =>
    rw [List.flatMap_cons] at h ⊢
    have hs : Fits (bytesOf s) := h.left.content
    have hread : readElement (generalString s ++ rest.flatMap generalString) =
        some (tagGeneralString, bytesOf s, rest.flatMap generalString) :=
      readElement_tlv (by decide) hs _
    cases rounds with
    | zero => simp at hrounds
    | succ rounds =>
      cases hbytes : generalString s ++ rest.flatMap generalString with
      | nil =>
        rw [hbytes] at hread
        cases hread
      | cons b bytes =>
        rw [hbytes] at hread
        have htake : (b :: bytes).take ((b :: bytes).length - (rest.flatMap generalString).length) =
            generalString s := by
          rw [← hbytes, List.length_append, Nat.add_sub_cancel, List.take_left]
        rw [several, hread, Option.bind_some]
        dsimp only
        rw [htake, whole_generalString hs, Option.bind_some,
          ih (by simpa using hrounds) h.right]
        rfl

/-- One element that was written is read alone. -/
theorem several_one {α : Type} {tag : UInt8} (htag : tag.toNat % 32 ≠ 31)
    {inner : List UInt8 → Option α} {content : List UInt8} (h : Fits content) :
    several inner (tlv tag content).length (tlv tag content) =
      (inner (tlv tag content)).map fun a => [a] := by
  have hread := readElement_tlv htag h []
  rw [List.append_nil] at hread
  obtain ⟨rounds, hrounds⟩ : ∃ rounds, (tlv tag content).length = rounds + 1 := ⟨_, rfl⟩
  obtain ⟨b, bytes, hbytes⟩ : ∃ b bytes, tlv tag content = b :: bytes := ⟨_, _, rfl⟩
  rw [hrounds, hbytes, several, ← hbytes, hread, Option.bind_some]
  simp only [List.length_nil, Nat.sub_zero, List.take_length]
  have hend : several inner rounds [] = some [] := by cases rounds <;> rfl
  rw [hend]
  cases inner (tlv tag content) with
  | none => rfl
  | some a => rfl

/-- Strings take at least one octet each. -/
theorem length_le_flatMap (components : List String) :
    components.length ≤ (components.flatMap generalString).length := by
  induction components with
  | nil => simp
  | cons s rest ih =>
    rw [List.flatMap_cons, List.length_append, List.length_cons]
    have hpos : 0 < (generalString s).length := by
      unfold generalString tlv
      simp
    omega

/-- A number that the schema takes for the type of a name. -/
def NameFits (p : Principal) : Prop := p.nameType.toNat < 0x80000000

instance (p : Principal) : Decidable (NameFits p) := inferInstanceAs (Decidable (_ < _))

/-- What a name is read as. -/
def Principal.contents (p : Principal) : NameValue := ⟨p.nameType.toNat, p.components.map bytesOf⟩

/-- A written name is read back, when its type is within the bounds of the schema. -/
theorem readName_principalName {p : Principal} (h : Fits (principalName p)) :
    readName (principalName p) = if NameFits p then some p.contents else none := by
  have hcontent := h.content
  have htype : readInt32 (integer p.nameType.toNat) =
      if NameFits p then some (p.nameType.toNat : ℤ) else none := by
    have hlt := p.nameType.toNat_lt
    rw [readInt32, readWithin_integer (by omega)]
    by_cases hfits : NameFits p
    · rw [if_pos hfits]
      unfold NameFits at hfits
      rw [if_pos (by omega)]
    · rw [if_neg hfits]
      unfold NameFits at hfits
      rw [if_neg (by omega)]
  have hstrings : ((whole tagSequence (tlv tagSequence (p.components.flatMap generalString))).bind
      fun strings => several (whole tagGeneralString) strings.length strings) =
        some (p.components.map bytesOf) := by
    have hfits := hcontent.right.content.content
    rw [whole_tlv (by decide) hfits, Option.bind_some,
      several_generalString (length_le_flatMap _) hfits]
  rw [readName, principalName, whole_tlv (by decide) hcontent, Option.bind_some,
    member_ctx (by decide) hcontent.left.content, htype]
  by_cases hfits : NameFits p
  · rw [if_pos hfits, if_pos hfits, Option.map_some, Option.bind_some]
    dsimp only
    rw [member_last (by decide) hcontent.right.content, hstrings]
    rfl
  · rw [if_neg hfits, if_neg hfits]
    rfl

/-- A written key is read back. -/
theorem readKey_written {keytype : UInt16} {key : List UInt8}
    (h : Fits (tlv tagSequence (ctx 0 (integer keytype.toNat) ++ ctx 1 (tlv tagOctetString key)))) :
    readKey (tlv tagSequence (ctx 0 (integer keytype.toNat) ++ ctx 1 (tlv tagOctetString key))) =
      some ((keytype.toNat : ℤ), key) := by
  have hcontent := h.content
  have hlt := keytype.toNat_lt
  have htype : readInt32 (integer keytype.toNat) = some (keytype.toNat : ℤ) := by
    rw [readInt32, readWithin_integer (by omega), if_pos (by omega)]
  rw [readKey, whole_tlv (by decide) hcontent, Option.bind_some,
    member_ctx (by decide) hcontent.left.content, htype, Option.map_some, Option.bind_some]
  dsimp only
  rw [member_last (by decide) hcontent.right.content,
    whole_tlv (by decide) hcontent.right.content.content]
  rfl

/-- Written flags are read back. -/
theorem readFlags_ticketFlags (flags : UInt32) :
    readFlags (ticketFlags flags) = some flags.toNat := by
  have hlt := flags.toNat_lt
  have hfits : Fits (0 :: octets 4 flags.toNat) := by
    unfold Fits
    simp
  have htake : (octets 4 flags.toNat).take 4 = octets 4 flags.toNat :=
    List.take_of_length_le (by simp)
  rw [readFlags, ticketFlags, whole_tlv (by decide) hfits, Option.bind_some]
  dsimp only
  rw [if_pos (by simp [Nat.mod_one]), htake, value_octets, Nat.mod_eq_of_lt (by omega)]

/-- Two digits are read back. -/
theorem readNumber_two : ∀ n < 100, (bytesOf (padded 2 n)).length = 2 ∧
    readNumber (bytesOf (padded 2 n)) = some n := by
  decide

/-- The four digits of a year are read back. -/
theorem readNumber_year : ∀ n < 137, (bytesOf (padded 4 (1970 + n))).length = 4 ∧
    readNumber (bytesOf (padded 4 (1970 + n))) = some (1970 + n) := by
  decide +kernel

/-- Parts of a text of fixed lengths are its pieces. -/
theorem take_drop_pieces {a b c : List UInt8} {i j : ℕ} (ha : a.length = i) (hb : b.length = j) :
    ((a ++ (b ++ c)).drop i).take j = b := by
  rw [← ha, List.drop_left, ← hb, List.take_left]

/-- A written time is read back. -/
theorem readKerberosTime_written (unix : UInt32) :
    readKerberosTime (kerberosTime unix) = some (unix.toNat : ℤ) := by
  have hunix := unix.toNat_lt
  obtain ⟨z, hz⟩ : ∃ z, z = unix.toNat / 86400 := ⟨_, rfl⟩
  obtain ⟨s, hs⟩ : ∃ s, s = unix.toNat % 86400 := ⟨_, rfl⟩
  rcases hdate : civilFromDays z with ⟨y, m, d⟩
  obtain ⟨hvalid, hordinal⟩ := ordinal_civilFromDays z hdate
  obtain ⟨hfirst, hlast⟩ := civilFromDays_year hdate (by omega)
  obtain ⟨_, _, hm, _, hd⟩ := id hvalid
  have hdays : d ≤ 31 := Nat.le_trans hd (daysIn_le _ _)
  obtain ⟨hy₁, hy₂⟩ := readNumber_year (y - 1970) (by omega)
  rw [Nat.add_sub_cancel' hfirst] at hy₁ hy₂
  obtain ⟨hm₁, hm₂⟩ := readNumber_two m (by omega)
  obtain ⟨hd₁, hd₂⟩ := readNumber_two d (by omega)
  obtain ⟨hh₁, hh₂⟩ := readNumber_two (s / 3600) (by omega)
  obtain ⟨hn₁, hn₂⟩ := readNumber_two (s / 60 % 60) (by omega)
  obtain ⟨hs₁, hs₂⟩ := readNumber_two (s % 60) (by omega)
  have hz' : bytesOf "Z" = [0x5a] := by decide
  have hcontent : kerberosTime unix = tlv tagGeneralizedTime (bytesOf (padded 4 y) ++
      (bytesOf (padded 2 m) ++ (bytesOf (padded 2 d) ++ (bytesOf (padded 2 (s / 3600)) ++
        (bytesOf (padded 2 (s / 60 % 60)) ++ (bytesOf (padded 2 (s % 60)) ++ [0x5a])))))) := by
    unfold kerberosTime
    rw [← hz, ← hs, hdate]
    simp only [bytesOf_append, List.append_assoc, hz']
  generalize bytesOf (padded 4 y) = yb at *
  generalize bytesOf (padded 2 m) = mb at *
  generalize bytesOf (padded 2 d) = db at *
  generalize bytesOf (padded 2 (s / 3600)) = hb at *
  generalize bytesOf (padded 2 (s / 60 % 60)) = nb at *
  generalize bytesOf (padded 2 (s % 60)) = sb at *
  obtain ⟨content, htext⟩ : ∃ content, content =
      yb ++ (mb ++ (db ++ (hb ++ (nb ++ (sb ++ [0x5a]))))) := ⟨_, rfl⟩
  have hlength : content.length = 15 := by simp [htext, hy₁, hm₁, hd₁, hh₁, hn₁, hs₁]
  have hzulu : content.getLast? = some 0x5a := by simp [htext]
  have hyear : content.take 4 = yb := by rw [htext, ← hy₁, List.take_left]
  have hmonth : (content.drop 4).take 2 = mb := by
    rw [htext]
    exact take_drop_pieces hy₁ hm₁
  have hday : (content.drop 6).take 2 = db := by
    rw [htext, ← List.append_assoc]
    exact take_drop_pieces (by simp [hy₁, hm₁]) hd₁
  have hhour : (content.drop 8).take 2 = hb := by
    rw [htext, ← List.append_assoc, ← List.append_assoc]
    exact take_drop_pieces (by simp [hy₁, hm₁, hd₁]) hh₁
  have hminute : (content.drop 10).take 2 = nb := by
    rw [htext, ← List.append_assoc, ← List.append_assoc, ← List.append_assoc]
    exact take_drop_pieces (by simp [hy₁, hm₁, hd₁, hh₁]) hn₁
  have hsecond : (content.drop 12).take 2 = sb := by
    rw [htext, ← List.append_assoc, ← List.append_assoc, ← List.append_assoc, ← List.append_assoc]
    exact take_drop_pieces (by simp [hy₁, hm₁, hd₁, hh₁, hn₁]) hs₁
  rw [readKerberosTime, hcontent, ← htext, whole_tlv (by decide) (by unfold Fits; omega),
    Option.bind_some, readTime, if_pos ⟨hlength, hzulu⟩, hyear, hmonth, hday, hhour, hminute, hsecond, hy₂, hm₂, hd₂, hh₂, hn₂,
    hs₂]
  simp only [Option.bind_eq_bind, Option.bind_some]
  have hhours : s / 3600 < 24 := by omega
  have hminutes : s / 60 % 60 < 60 := Nat.mod_lt _ (by decide)
  have hseconds : s % 60 < 60 := Nat.mod_lt _ (by decide)
  have htotal : (86400 * ((ordinal y m d : ℤ) - epoch) + 3600 * (s / 3600 : ℕ) +
      60 * (s / 60 % 60 : ℕ) + (s % 60 : ℕ) : ℤ) = unix.toNat := by
    rw [hordinal, Nat.cast_add, add_sub_cancel_right]
    omega
  rw [if_pos ⟨hvalid, hhours, hminutes, hseconds⟩, htotal]

/-- A time that is written when it is not zero is read back when it was written. -/
theorem memberOpt_time {n k : UInt8} (hn : (ctxTag n).toNat % 32 ≠ 31) (hne : ctxTag k ≠ ctxTag n)
    {t : UInt32} {content rest : List UInt8}
    (h : Fits (if t ≠ 0 then ctx n (kerberosTime t) else [])) :
    memberOpt (ctxTag n) readKerberosTime
        ((if t ≠ 0 then ctx n (kerberosTime t) else []) ++ (ctx k content ++ rest)) =
      some (if t = 0 then none else some (t.toNat : ℤ), ctx k content ++ rest) := by
  by_cases hzero : t = 0
  · rw [if_neg (by simpa using hzero), if_pos hzero, List.nil_append, optional_other hne]
  · rw [if_pos hzero] at h ⊢
    rw [if_neg hzero, optional_ctx hn h.content, readKerberosTime_written]
    rfl

/-- What a credential's message says about the ticket. -/
def Credential.contents (c : Credential) : InfoValue where
  key := (c.keytype.toNat, c.key)
  prealm := some (bytesOf c.client.realm)
  pname := some c.client.contents
  flags := some c.flags.toNat
  authtime := some c.authtime.toNat
  starttime := if c.starttime = 0 then none else some (c.starttime.toNat : ℤ)
  endtime := some c.endtime.toNat
  renewTill := if c.renewTill = 0 then none else some (c.renewTill.toNat : ℤ)
  srealm := some (bytesOf c.server.realm)
  sname := some c.server.contents
  caddr := none

/-- The message of a credential: its ticket as it is, and what is said about it. -/
def Credential.message (c : Credential) : CredValue :=
  ⟨c.ticket, [c.contents], none, none, none, none, none⟩

/-- A member that is there and that its reader reads is read. -/
theorem memberOpt_some {α : Type} {n : UInt8} (hn : (ctxTag n).toNat % 32 ≠ 31)
    {inner : List UInt8 → Option α} {content rest : List UInt8} {a : α}
    (h : Fits (ctx n content)) (ha : inner content = some a) :
    memberOpt (ctxTag n) inner (ctx n content ++ rest) = some (some a, rest) := by
  rw [optional_ctx hn h.content, ha, Option.map_some]

/-- A step that gives something goes on with it. -/
theorem bind_of_some {α β : Type} {o : Option α} {a : α} (h : o = some a) (f : α → Option β) :
    (o >>= f) = f a := by
  rw [h]
  rfl

/-- What is said about a ticket is read member by member; the two names alone may not
be read. -/
theorem readInfo_of {bytes c₀ c₁ c₂ c₃ c₄ c₅ c₆ c₇ c₈ c₉ : List UInt8} {key : ℤ × List UInt8}
    {prealm srealm : Option (List UInt8)} {client server : Option NameValue} {flags : Option ℕ}
    {authtime starttime endtime renewTill : Option ℤ}
    (hwhole : whole tagSequence bytes = some c₀)
    (hkey : member (ctxTag 0) readKey c₀ = some (key, c₁))
    (hprealm : memberOpt (ctxTag 1) (whole tagGeneralString) c₁ = some (prealm, c₂))
    (hpname : memberOpt (ctxTag 2) readName c₂ = client.map fun name => (some name, c₃))
    (hflags : memberOpt (ctxTag 3) readFlags c₃ = some (flags, c₄))
    (hauthtime : memberOpt (ctxTag 4) readKerberosTime c₄ = some (authtime, c₅))
    (hstarttime : memberOpt (ctxTag 5) readKerberosTime c₅ = some (starttime, c₆))
    (hendtime : memberOpt (ctxTag 6) readKerberosTime c₆ = some (endtime, c₇))
    (hrenewTill : memberOpt (ctxTag 7) readKerberosTime c₇ = some (renewTill, c₈))
    (hsrealm : memberOpt (ctxTag 8) (whole tagGeneralString) c₈ = some (srealm, c₉))
    (hsname : memberOpt (ctxTag 9) readName c₉ = server.map fun name => (some name, [])) :
    readInfo bytes = client.bind fun pname => server.map fun sname =>
      ⟨key, prealm, some pname, flags, authtime, starttime, endtime, renewTill, srealm, some sname,
        none⟩ := by
  rw [readInfo, bind_of_some hwhole, bind_of_some hkey]
  dsimp only
  rw [bind_of_some hprealm]
  dsimp only
  cases client with
  | none =>
    rw [hpname]
    rfl
  | some pname =>
    rw [bind_of_some hpname]
    dsimp only
    rw [bind_of_some hflags]
    dsimp only
    rw [bind_of_some hauthtime]
    dsimp only
    rw [bind_of_some hstarttime]
    dsimp only
    rw [bind_of_some hendtime]
    dsimp only
    rw [bind_of_some hrenewTill]
    dsimp only
    rw [bind_of_some hsrealm]
    dsimp only
    rw [hsname]
    cases server with
    | none => rfl
    | some sname => rfl

/-- What is written about a ticket is read back, when the types of both names are within
the bounds of the schema. -/
theorem readInfo_credInfo {c : Credential} (h : Fits (credInfo c)) :
    readInfo (credInfo c) =
      if NameFits c.client ∧ NameFits c.server then some c.contents else none := by
  have h₀ := h.content
  unfold credFields at h₀
  have h₁ := h₀.right
  have h₂ := h₁.right
  have h₃ := h₂.right
  have h₄ := h₃.right
  have h₅ := h₄.right
  have h₆ := h₅.right
  have h₇ := h₆.right
  have h₈ := h₇.right
  have hlast : ctx 9 (principalName c.server) = ctx 9 (principalName c.server) ++ [] :=
    (List.append_nil _).symm
  have hwhole : whole tagSequence (credInfo c) = some (credFields c) :=
    whole_tlv (by decide) h.content
  have hnames := @readInfo_of _ _ _ _ _ _ _ _ _ _ _ _ _ _ (readName (principalName c.client))
    (readName (principalName c.server)) _ _ _ _ _ hwhole
    ((member_ctx (by decide) h₀.left.content _).trans
      (congrArg _ (readKey_written h₀.left.content)))
    (memberOpt_some (by decide) h₁.left (whole_generalString h₁.left.content.content))
    (optional_ctx (by decide) h₂.left.content _)
    (memberOpt_some (by decide) h₃.left (readFlags_ticketFlags _))
    (memberOpt_some (by decide) h₄.left (readKerberosTime_written _))
    (memberOpt_time (by decide) (by decide) h₅.left)
    (memberOpt_some (by decide) h₆.left (readKerberosTime_written _))
    (memberOpt_time (by decide) (by decide) h₇.left)
    (memberOpt_some (by decide) h₈.left (whole_generalString h₈.left.content.content))
    (by rw [hlast]; exact optional_ctx (by decide) h₈.right.content _)
  rw [hnames, readName_principalName h₂.left.content, readName_principalName h₈.right.content]
  by_cases hclient : NameFits c.client
  · by_cases hserver : NameFits c.server
    · simp only [hclient, hserver, and_self, if_true, Option.bind_some, Option.map_some]
      rfl
    · simp only [hserver, and_false, if_false, Option.map_none, Option.bind_fun_none]
  · simp only [hclient, false_and, if_false, Option.bind_none]

/-- The part of the message that would be encrypted is read back. -/
theorem readPart_encPart {c : Credential} (h : Fits (encPart c)) (tickets : List UInt8) :
    readPart tickets (encPart c) =
      if NameFits c.client ∧ NameFits c.server then
        some ⟨tickets, [c.contents], none, none, none, none, none⟩
      else none := by
  have hbody := h.content.content
  have hinfos := hbody.content
  have hlast : ctx 0 (tlv tagSequence (credInfo c)) = ctx 0 (tlv tagSequence (credInfo c)) ++ [] :=
    (List.append_nil _).symm
  have hone : several readInfo (credInfo c).length (credInfo c) =
      (readInfo (credInfo c)).map fun info => [info] := several_one (by decide) hinfos.content.content
  have hread : ((whole tagSequence (tlv tagSequence (credInfo c))).bind fun infos =>
      several readInfo infos.length infos) = (readInfo (credInfo c)).map fun info => [info] := by
    rw [whole_tlv (by decide) hinfos.content, Option.bind_some, hone]
  rw [readPart, encPart, bind_of_some (whole_tlv (by decide) h.content),
    bind_of_some (whole_tlv (by decide) hbody), hlast, member_ctx (by decide) hinfos, hread,
    readInfo_credInfo hinfos.content]
  by_cases hnames : NameFits c.client ∧ NameFits c.server
  · rw [if_pos hnames, if_pos hnames]
    rfl
  · rw [if_neg hnames, if_neg hnames]
    rfl

/-- The part under no encryption is read back. -/
theorem readPlain_written {part : List UInt8}
    (h : Fits (tlv tagSequence (ctx 0 (integer 0) ++ ctx 2 (tlv tagOctetString part)))) :
    readPlain (tlv tagSequence (ctx 0 (integer 0) ++ ctx 2 (tlv tagOctetString part))) =
      some part := by
  have hcontent := h.content
  have hetype : readWithin 0 0 (integer 0) = some 0 := by decide
  have hlast : ctx 2 (tlv tagOctetString part) = ctx 2 (tlv tagOctetString part) ++ [] :=
    (List.append_nil _).symm
  have hfirst : member (ctxTag 0) (readWithin 0 0)
      (ctx 0 (integer 0) ++ ctx 2 (tlv tagOctetString part)) =
        some (0, ctx 2 (tlv tagOctetString part)) := by
    rw [member_ctx (by decide) hcontent.left.content, hetype, Option.map_some]
  have hkvno : memberOpt (ctxTag 1) readUInt32 (ctx 2 (tlv tagOctetString part)) =
      some (none, ctx 2 (tlv tagOctetString part)) := by
    rw [hlast, optional_other (by decide)]
  rw [readPlain, bind_of_some (whole_tlv (by decide) hcontent), bind_of_some hfirst]
  dsimp only
  rw [bind_of_some hkvno]
  dsimp only
  rw [member_last (by decide) hcontent.right.content,
    whole_tlv (by decide) hcontent.right.content.content]
  rfl

/-- A message is read member by member, and then its part under no encryption. -/
theorem readCred_of {bytes c₀ c₁ c₂ c₃ c₄ tickets plain : List UInt8} {pvno msgType : ℤ}
    (hwhole : whole (app 22) bytes = some c₀)
    (hbody : whole tagSequence c₀ = some c₁)
    (hpvno : member (ctxTag 0) (readWithin 5 5) c₁ = some (pvno, c₂))
    (htype : member (ctxTag 1) (readWithin 22 22) c₂ = some (msgType, c₃))
    (htickets : member (ctxTag 2) (whole tagSequence) c₃ = some (tickets, c₄))
    (hplain : member (ctxTag 3) readPlain c₄ = some (plain, [])) :
    readCred bytes = readPart tickets plain := by
  rw [readCred, bind_of_some hwhole, bind_of_some hbody, bind_of_some hpvno]
  dsimp only
  rw [bind_of_some htype]
  dsimp only
  rw [bind_of_some htickets]
  dsimp only
  rw [bind_of_some hplain]
  rfl

/-- A message is read back as what its credential says, when the types of both names are
within the bounds of the schema, and is not read otherwise. -/
theorem readCred_krbCred {c : Credential} (h : Fits (krbCred c)) :
    readCred (krbCred c) =
      if NameFits c.client ∧ NameFits c.server then some c.message else none := by
  have hfive : readWithin 5 5 (integer 5) = some 5 := by decide
  have htwentyTwo : readWithin 22 22 (integer 22) = some 22 := by decide
  have hbody := h.content.content
  have hmembers := hbody.right
  have hrest := hmembers.right
  have hpart := hrest.right.content
  have hencrypted := hpart.content.right.content.content
  have hread := readCred_of (whole_tlv (by decide) h.content) (whole_tlv (by decide) hbody)
    ((member_ctx (by decide) hbody.left.content _).trans (congrArg _ hfive))
    ((member_ctx (by decide) hmembers.left.content _).trans (congrArg _ htwentyTwo))
    ((member_ctx (by decide) hrest.left.content _).trans
      (congrArg _ (whole_tlv (by decide) hrest.left.content.content)))
    ((member_last (by decide) hpart).trans (congrArg _ (readPlain_written hpart)))
  rw [krbCred, hread, readPart_encPart hencrypted]
  rfl

/-- The message of a credential is read back, all of it, as what the credential says, exactly
when the types of both names are below half their range. The record of a cache keeps them
without a sign, and the schema has one. -/
theorem krbCred_read_iff {c : Credential} (h : Fits (krbCred c)) :
    readCred (krbCred c) = some c.message ↔ NameFits c.client ∧ NameFits c.server := by
  rw [readCred_krbCred h]
  by_cases hnames : NameFits c.client ∧ NameFits c.server
  · rw [if_pos hnames]
    exact ⟨fun _ => hnames, fun _ => rfl⟩
  · rw [if_neg hnames]
    exact ⟨fun hread => by simp at hread, fun hboth => absurd hboth hnames⟩

/-- A ticket-granting ticket whose client has a name of a given type. -/
def typedTicket (nameType : UInt32) : Credential where
  client := ⟨nameType, "R", ["a"]⟩
  server := ⟨2, "R", ["krbtgt", "R"]⟩
  keytype := 18
  key := List.replicate 200 255
  authtime := 1753660800
  starttime := 0
  endtime := 1753696800
  renewTill := 4294967295
  flags := 0x80000000
  ticket := [97, 130]

/-- The message of a ticket for an ordinary name is read back. -/
theorem krbCred_read_ordinary :
    NameFits (typedTicket 1).client ∧ NameFits (typedTicket 1).server ∧
      readCred (krbCred (typedTicket 1)) = some (typedTicket 1).message := by
  refine ⟨by decide, by decide, ?_⟩
  exact (krbCred_read_iff (by unfold Fits; decide +kernel)).mpr ⟨by decide, by decide⟩

/-- The message of a ticket for a name of a vendor's own type is not read. -/
theorem krbCred_unread_negative : readCred (krbCred (typedTicket 0xffffff80)) = none := by
  decide +kernel

end Kerbridge.Krbcred

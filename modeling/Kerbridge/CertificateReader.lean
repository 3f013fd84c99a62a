import Kerbridge.ObjectIds
import Kerbridge.Timestamps

/-!
# The certificate a host presented

After a refused handshake the client reads four fields and the names out of the
certificate that was refused. The walk is positional: a cursor over the contents of an
element gives the elements one after another, each by its tag and its length, and
gives up at the end of the contents and on anything malformed.
-/

namespace Kerbridge.Tls

open UnicodeText RetentionClock LossyText Timestamps ObjectIds Der Krbcred

/-- What the report says of a certificate. -/
structure Peer where
  subject : String
  issuer : String
  dnsNames : List String
  notBefore : String
  notAfter : String
  deriving DecidableEq

/-- The tag of a sequence. -/
def SEQUENCE : UInt8 := 0x30

/-- The tag of a set. -/
def SET : UInt8 := 0x31

/-- The tag of an object identifier. -/
def OID : UInt8 := 0x06

/-- The tag of an octet string. -/
def OCTET_STRING : UInt8 := 0x04

/-- The tag of a boolean. -/
def BOOLEAN : UInt8 := 0x01

/-- The tag of a text of sixteen-bit units. -/
def BMP_STRING : UInt8 := 0x1e

/-- The tag of a time with a year of two digits. -/
def UTC_TIME : UInt8 := 0x17

/-- The tag of a time with a year of four digits. -/
def GENERALIZED_TIME : UInt8 := 0x18

/-- The tag of the version. -/
def CONTEXT_0 : UInt8 := 0xa0

/-- The tag of the extensions. -/
def CONTEXT_3 : UInt8 := 0xa3

/-- The tag of a name of a host. -/
def CONTEXT_2_PRIMITIVE : UInt8 := 0x82

/-- The object identifier of the alternative names. -/
def OID_SUBJECT_ALT_NAME : List UInt8 := [0x55, 0x1d, 0x11]

/-- An element: its tag and its contents. -/
abbrev Element := UInt8 × List UInt8

/-- `split_at_checked`. -/
def splitAtChecked (n : ℕ) (bytes : List UInt8) : Option (List UInt8 × List UInt8) :=
  if n ≤ bytes.length then some (bytes.take n, bytes.drop n) else none

/-- The length of an element, in the short form or in the long one of four bytes at most. -/
def lengthOf : List UInt8 → Option (ℕ × List UInt8)
  | [] => none
  | first :: rest =>
    if first < 0x80 then some (first.toNat, rest)
    else
      let count := (first &&& 0x7f).toNat
      if count = 0 ∨ 4 < count then none
      else (splitAtChecked count rest).map fun (bytes, rest) =>
        (bytes.foldl (fun acc b => acc <<< 8 ||| b.toNat) 0, rest)

/-- The next element of a cursor, and the cursor behind it. -/
def next : List UInt8 → Option (Element × List UInt8)
  | [] => none
  | tag :: rest => do
    let (len, rest) ← lengthOf rest
    let (contents, rest) ← splitAtChecked len rest
    return ((tag, contents), rest)

/-- The next element, which must be a sequence, as a cursor over its contents. -/
def seq (cursor : List UInt8) : Option (List UInt8 × List UInt8) :=
  match next cursor with
  | some ((tag, contents), rest) => if tag = SEQUENCE then some (contents, rest) else none
  | none => none

/-- The elements a loop over a cursor meets, within a number of rounds. -/
def elementsLoop : ℕ → List UInt8 → List Element
  | 0, _ => []
  | rounds + 1, cursor =>
    match next cursor with
    | some (e, rest) => e :: elementsLoop rounds rest
    | none => []

/-- The elements a loop over a cursor meets: those before the end, or before the first that is
malformed. -/
def elements (cursor : List UInt8) : List Element := elementsLoop cursor.length cursor

/-- The elements a loop meets that ends at any other tag. -/
def whileTag (tag : UInt8) (cursor : List UInt8) : List (List UInt8) :=
  ((elements cursor).takeWhile fun e => e.1 = tag).map Prod.snd

/-- The short name of an attribute type, or its dotted form. -/
def attributeName (oid : List UInt8) : String :=
  if oid = [0x55, 0x04, 0x03] then "CN"
  else if oid = [0x55, 0x04, 0x06] then "C"
  else if oid = [0x55, 0x04, 0x07] then "L"
  else if oid = [0x55, 0x04, 0x08] then "ST"
  else if oid = [0x55, 0x04, 0x0a] then "O"
  else if oid = [0x55, 0x04, 0x0b] then "OU"
  else if oid = [0x09, 0x92, 0x26, 0x89, 0x93, 0xf2, 0x2c, 0x64, 0x01, 0x19] then "DC"
  else dotted oid

/-- The sixteen-bit units of octets; an odd one at the end is none. -/
def units : List UInt8 → List ℕ
  | high :: low :: rest => (high.toNat * 256 + low.toNat) :: units rest
  | _ => []

/-- The contents of a text. -/
def text (tag : UInt8) (value : List UInt8) : String :=
  if tag = BMP_STRING then String.ofList (fromUtf16 (units value)) else fromUtf8Lossy value

/-- An attribute of a name as it is printed, when it has a type and a value. -/
def attributeText (contents : List UInt8) : Option String := do
  let ((oidTag, oid), rest) ← next contents
  if oidTag ≠ OID then none
  else do
    let ((tag, value), _) ← next rest
    return attributeName oid ++ "=" ++ text tag value

/-- A name as it is printed: what of it can be read, in the order of the certificate. -/
def name (rdns : List UInt8) : String :=
  ", ".intercalate ((whileTag SET rdns).flatMap fun set => (whileTag SEQUENCE set).filterMap attributeText)

/-- `str::get` on a range of octets. -/
def get (s : String) (first last : ℕ) : Option String := (slice s first last).toOption

/-- `str::parse` at `i32`. -/
def parseI32 (s : String) : Option ℤ :=
  (parseSigned s.toList).filter fun n => decide (-2147483648 ≤ n) && decide (n ≤ 2147483647)

/-- The year of a time, and its digits behind the year. -/
def yearOf (tag : UInt8) (digits : String) : Option (ℤ × String) :=
  if tag = UTC_TIME then do
    let yy ← parseI32 (← get digits 0 2)
    let rest ← get digits 2 10
    return (if yy < 50 then 2000 + yy else 1900 + yy, rest)
  else if tag = GENERALIZED_TIME then do
    let year ← parseI32 (← get digits 0 4)
    let rest ← get digits 4 12
    return (year, rest)
  else none

/-- A time to the minute. -/
def time (e : Element) : Option String := do
  let digits ← fromUtf8 e.2
  let (year, rest) ← yearOf e.1 digits
  let month ← get rest 0 2
  let day ← get rest 2 4
  let hour ← get rest 4 6
  let minute ← get rest 6 8
  return zeroPadded 4 year ++ "-" ++ month ++ "-" ++ day ++ " " ++ hour ++ ":" ++ minute ++ "Z"

/-- The names an extension gives, when it is that of the alternative names. -/
def altNames (extension : List UInt8) : Option (List String) := do
  let ((oidTag, oid), rest) ← next extension
  if oidTag ≠ OID ∨ oid ≠ OID_SUBJECT_ALT_NAME then none
  else do
    let ((tag, value), rest) ← next rest
    let wrapped ←
      if tag = OCTET_STRING then some value
      else if tag = BOOLEAN then do
        let ((tag, value), _) ← next rest
        if tag = OCTET_STRING then some value else none
      else none
    let (generalNames, _) ← seq wrapped
    return (elements generalNames).filterMap fun (tag, value) =>
      if tag = CONTEXT_2_PRIMITIVE then some (fromUtf8Lossy value) else none

/-- The names of hosts, none when the certificate carries none. -/
def dnsNames (tbs : List UInt8) : List String :=
  match (elements tbs).find? fun e => e.1 = CONTEXT_3 with
  | none => []
  | some (_, contents) =>
    match seq contents with
    | none => []
    | some (extensions, _) => ((whileTag SEQUENCE extensions).findSome? altNames).getD []

/-- The cursor behind the serial number, which follows the version and comes first without it. -/
def behindSerial (tag : UInt8) (tbs : List UInt8) : Option (List UInt8) :=
  if tag = CONTEXT_0 then (next tbs).map Prod.snd else some tbs

/-- The walk of a certificate as far as the extensions. -/
def Peer.fromDer (der : List UInt8) : Option Peer := do
  let (certificate, _) ← seq der
  let (tbs, _) ← seq certificate
  let ((tag, _), tbs) ← next tbs
  let tbs ← behindSerial tag tbs
  let (_, tbs) ← next tbs
  let (issuer, tbs) ← seq tbs
  let (validity, tbs) ← seq tbs
  let (notBefore, validity) ← next validity
  let notBefore ← time notBefore
  let (notAfter, _) ← next validity
  let notAfter ← time notAfter
  let (subject, tbs) ← seq tbs
  let (_, tbs) ← next tbs
  return ⟨name subject, name issuer, Tls.dnsNames tbs, notBefore, notAfter⟩

/-- A cut keeps all its octets. -/
theorem splitAtChecked_iff {n : ℕ} {bytes a b : List UInt8} :
    splitAtChecked n bytes = some (a, b) ↔ bytes = a ++ b ∧ a.length = n := by
  unfold splitAtChecked
  split
  · rename_i hn
    simp only [Option.some_inj, Prod.mk.injEq]
    constructor
    · rintro ⟨rfl, rfl⟩
      exact ⟨(List.take_append_drop n bytes).symm, List.length_take_of_le hn⟩
    · rintro ⟨rfl, rfl⟩
      rw [List.take_left, List.drop_left]
      exact ⟨rfl, rfl⟩
  · rename_i hn
    constructor
    · intro h
      cases h
    · rintro ⟨rfl, rfl⟩
      rw [List.length_append] at hn
      omega

/-- Part of a text is cut off it. -/
theorem splitAtChecked_append (a b : List UInt8) : splitAtChecked a.length (a ++ b) = some (a, b) :=
  splitAtChecked_iff.mpr ⟨rfl, rfl⟩

/-- A length is behind octets of its own. -/
theorem lengthOf_within {bytes rest : List UInt8} {n : ℕ} (h : lengthOf bytes = some (n, rest)) :
    ∃ header, bytes = header ++ rest := by
  cases bytes with
  | nil => cases h
  | cons first bytes =>
    rw [lengthOf] at h
    split at h
    · cases h
      exact ⟨[first], rfl⟩
    · dsimp only at h
      split at h
      · cases h
      · obtain ⟨⟨digits, behind⟩, hcut, heq⟩ := Option.map_eq_some_iff.mp h
        cases heq
        obtain ⟨rfl, -⟩ := splitAtChecked_iff.mp hcut
        exact ⟨first :: digits, rfl⟩

/-- The contents of an element and what is behind it lie in the octets it was read from. -/
theorem next_within {bytes rest : List UInt8} {e : Element} (h : next bytes = some (e, rest)) :
    ∃ header, bytes = e.1 :: (header ++ (e.2 ++ rest)) := by
  cases bytes with
  | nil => cases h
  | cons tag bytes =>
    simp only [next, Option.bind_eq_bind, Option.bind_eq_some_iff] at h
    obtain ⟨⟨len, behind⟩, hlen, ⟨contents, rest'⟩, hcut, heq⟩ := h
    cases heq
    obtain ⟨header, rfl⟩ := lengthOf_within hlen
    obtain ⟨rfl, -⟩ := splitAtChecked_iff.mp hcut
    exact ⟨header, rfl⟩

/-- A loop goes on behind an element with less to read. -/
theorem next_shorter {bytes rest : List UInt8} {e : Element} (h : next bytes = some (e, rest)) :
    rest.length < bytes.length := by
  obtain ⟨header, rfl⟩ := next_within h
  simp only [List.length_cons, List.length_append]
  omega

/-- As many rounds as octets are enough for a loop. -/
theorem elementsLoop_rounds {rounds rounds' : ℕ} {cursor : List UInt8} (h : cursor.length ≤ rounds)
    (h' : cursor.length ≤ rounds') : elementsLoop rounds cursor = elementsLoop rounds' cursor := by
  induction rounds generalizing rounds' cursor with
  | zero =>
    obtain rfl := List.length_eq_zero_iff.mp (Nat.le_zero.mp h)
    cases rounds' with
    | zero => rfl
    | succ rounds' => rfl
  | succ rounds ih =>
    cases rounds' with
    | zero =>
      obtain rfl := List.length_eq_zero_iff.mp (Nat.le_zero.mp h')
      rfl
    | succ rounds' =>
      rw [elementsLoop, elementsLoop]
      cases hnext : next cursor with
      | none => rfl
      | some found =>
        obtain ⟨e, rest⟩ := found
        have hshorter := next_shorter hnext
        dsimp only
        rw [@ih rounds' _ (by omega) (by omega)]

/-- A loop over a cursor ends by itself: at each element it goes on behind it, and else it stops. -/
theorem elements_eq (cursor : List UInt8) : elements cursor =
    match next cursor with
    | some (e, rest) => e :: elements rest
    | none => [] := by
  unfold elements
  rw [elementsLoop_rounds (le_refl _) (Nat.le_succ _), elementsLoop]
  cases hnext : next cursor with
  | none => rfl
  | some found =>
    obtain ⟨e, rest⟩ := found
    have hshorter := next_shorter hnext
    dsimp only
    rw [@elementsLoop_rounds _ rest.length _ (by omega) (le_refl _)]

/-- Octets, gathered into a number. -/
theorem foldl_value (bytes : List UInt8) (acc : ℕ) :
    bytes.foldl (fun acc b => acc <<< 8 ||| b.toNat) acc = acc * 256 ^ bytes.length + value bytes := by
  induction bytes generalizing acc with
  | nil =>
    rw [List.foldl_nil, value, List.length_nil]
    omega
  | cons b bytes ih =>
    have hstep : acc <<< 8 ||| b.toNat = acc * 256 + b.toNat := by
      rw [← Nat.shiftLeft_add_eq_or_of_lt b.toNat_lt, Nat.shiftLeft_eq]
    rw [List.foldl_cons, ih, hstep, value, List.length_cons, Nat.pow_succ', Nat.add_mul, Nat.add_assoc,
      Nat.mul_assoc]

/-- The octets that a number needs. -/
theorem trimmed_value {n : ℕ} (h : n < 2 ^ 64) :
    value ((octets 8 n).dropWhile (· == 0)) = n := by
  rw [value_dropZeros, value_octets]
  exact Nat.mod_eq_of_lt h

/-- A number needs four octets at most exactly when thirty-two bits hold it. -/
theorem trimmed_length_iff {n : ℕ} (h : n < 2 ^ 64) :
    ((octets 8 n).dropWhile (· == 0)).length ≤ 4 ↔ n < 2 ^ 32 := by
  have hvalue := trimmed_value h
  have hhead := List.head?_dropWhile_not (· == (0 : UInt8)) (octets 8 n)
  generalize (octets 8 n).dropWhile (· == 0) = digits at hvalue hhead
  constructor
  · intro hlength
    have hbound := value_lt digits
    have hpower : 256 ^ digits.length ≤ 256 ^ 4 := Nat.pow_le_pow_right (by omega) hlength
    omega
  · intro hn
    by_contra hlong
    cases digits with
    | nil => exact hlong (Nat.zero_le _)
    | cons b rest =>
      have hb : b.toNat ≠ 0 := by
        intro hzero
        simp [show b = 0 from UInt8.toNat_inj.mp hzero] at hhead
      rw [List.length_cons] at hlong
      have hpower : 256 ^ 4 ≤ 256 ^ rest.length := Nat.pow_le_pow_right (by omega) (by omega)
      have hproduct : 1 * 256 ^ rest.length ≤ b.toNat * 256 ^ rest.length :=
        Nat.mul_le_mul_right _ (by omega)
      rw [value] at hvalue
      omega

/-- The length of a written element is read when thirty-two bits hold it. -/
theorem lengthOf_written {n : ℕ} (hn : n < 2 ^ 64) (rest : List UInt8) :
    lengthOf ((if n < 0x80 then [UInt8.ofNat n]
      else (0x80 ||| UInt8.ofNat ((octets 8 n).dropWhile (· == 0)).length) ::
        (octets 8 n).dropWhile (· == 0)) ++ rest) = if n < 2 ^ 32 then some (n, rest) else none := by
  by_cases hshort : n < 0x80
  · have hbyte : (UInt8.ofNat n).toNat = n := by
      rw [UInt8.toNat_ofNat']
      omega
    rw [if_pos hshort, if_pos (by omega), List.singleton_append, lengthOf, if_pos, hbyte]
    rw [UInt8.lt_iff_toNat_lt, hbyte]
    exact hshort
  · have hiff := trimmed_length_iff hn
    have hvalue := trimmed_value hn
    have hlen : ((octets 8 n).dropWhile (· == 0)).length ≤ 8 := by
      have hsub := (List.dropWhile_sublist (· == (0 : UInt8)) (l := octets 8 n)).length_le
      rwa [length_octets] at hsub
    rw [if_neg hshort]
    generalize (octets 8 n).dropWhile (· == 0) = digits at hiff hvalue hlen
    have hcount : ∀ k ≤ 8, ¬(0x80 ||| UInt8.ofNat k : UInt8) < 0x80 ∧
        ((0x80 ||| UInt8.ofNat k : UInt8) &&& 0x7f).toNat = k := by decide
    obtain ⟨hlong, hlow⟩ := hcount _ hlen
    rw [List.cons_append, lengthOf, if_neg hlong, hlow]
    dsimp only
    have hsome : digits.length ≠ 0 := by
      intro hnone
      rw [List.length_eq_zero_iff.mp hnone, value] at hvalue
      omega
    by_cases hfour : n < 2 ^ 32
    · have hdigits := hiff.mpr hfour
      rw [if_pos hfour, if_neg (by omega), splitAtChecked_append, Option.map_some]
      dsimp only
      rw [foldl_value, hvalue, Nat.zero_mul, Nat.zero_add]
    · rw [if_neg hfour, if_pos (by omega)]

/-- An element is read off the octets it was written to, when thirty-two bits hold its length,
and else it is not. -/
theorem next_tlv {tag : UInt8} {content : List UInt8} (h : Fits content) (rest : List UInt8) :
    next (tlv tag content ++ rest) =
      if content.length < 2 ^ 32 then some ((tag, content), rest) else none := by
  unfold tlv
  dsimp only
  rw [List.cons_append, List.append_assoc, next, lengthOf_written h]
  split
  · show (splitAtChecked content.length (content ++ rest) >>= _) = _
    rw [splitAtChecked_append]
    rfl
  · rfl

/-- Octets whose number thirty-two bits hold. -/
def Small (bytes : List UInt8) : Prop := bytes.length < 2 ^ 32

instance (bytes : List UInt8) : Decidable (Small bytes) := inferInstanceAs (Decidable (_ < _))

/-- What an element holds is small where the element is. -/
theorem Small.content {tag : UInt8} {content : List UInt8} (h : Small (tlv tag content)) :
    Small content := by
  unfold Small tlv at h
  simp only [List.length_cons, List.length_append] at h
  unfold Small
  omega

/-- The first of two parts is small where both are together. -/
theorem Small.left {a b : List UInt8} (h : Small (a ++ b)) : Small a := by
  unfold Small at h ⊢
  rw [List.length_append] at h
  omega

/-- The second of two parts is small where both are together. -/
theorem Small.right {a b : List UInt8} (h : Small (a ++ b)) : Small b := by
  unfold Small at h ⊢
  rw [List.length_append] at h
  omega

/-- Each of many parts is small where all are together. -/
theorem Small.mem {α : Type} {f : α → List UInt8} {l : List α} (h : Small (l.flatMap f)) {a : α}
    (ha : a ∈ l) : Small (f a) := by
  obtain ⟨before, after, rfl⟩ := List.append_of_mem ha
  rw [List.flatMap_append, List.flatMap_cons] at h
  exact h.right.left

/-- A small element is read off the octets it was written to. -/
theorem next_small {tag : UInt8} {content : List UInt8} (h : Small content) (rest : List UInt8) :
    next (tlv tag content ++ rest) = some ((tag, content), rest) := by
  unfold Small at h
  rw [next_tlv (by unfold Fits; omega), if_pos h]

/-- A small element at the end is read off the octets it was written to. -/
theorem next_last {tag : UInt8} {content : List UInt8} (h : Small content) :
    next (tlv tag content) = some ((tag, content), []) := by
  have hread := @next_small tag _ h []
  rwa [List.append_nil] at hread

/-- A small sequence is read off the octets it was written to. -/
theorem seq_small {content : List UInt8} (h : Small content) (rest : List UInt8) :
    seq (tlv SEQUENCE content ++ rest) = some (content, rest) := by
  unfold seq
  rw [next_small h]
  exact if_pos rfl

/-- A small sequence at the end is read off the octets it was written to. -/
theorem seq_last {content : List UInt8} (h : Small content) :
    seq (tlv SEQUENCE content) = some (content, []) := by
  have hread := seq_small h []
  rwa [List.append_nil] at hread

/-- The elements that were written are those a loop meets. -/
theorem elements_tlv {l : List Element} (h : Small (l.flatMap fun e => tlv e.1 e.2)) :
    elements (l.flatMap fun e => tlv e.1 e.2) = l := by
  induction l with
  | nil => rfl
  | cons e l ih =>
    rw [List.flatMap_cons] at h ⊢
    rw [elements_eq, next_small h.left.content]
    dsimp only
    rw [ih h.right]

/-- The contents that were written under one tag are those a loop over that tag meets. -/
theorem whileTag_tlv {tag : UInt8} {l : List (List UInt8)} (h : Small (l.flatMap (tlv tag))) :
    whileTag tag (l.flatMap (tlv tag)) = l := by
  have hpairs : l.flatMap (tlv tag) = (l.map fun c => (tag, c)).flatMap fun e => tlv e.1 e.2 := by
    rw [List.flatMap_map]
  have hall : ((l.map fun c => (tag, c)).takeWhile fun e => e.1 = tag) = l.map fun c => (tag, c) := by
    rw [List.takeWhile_eq_self_iff]
    intro e he
    obtain ⟨c, -, rfl⟩ := List.mem_map.mp he
    exact decide_eq_true rfl
  unfold whileTag
  rw [hpairs] at h ⊢
  rw [elements_tlv h, hall, List.map_map]
  exact List.map_id' l

/-- Part of a text is read by its octets. -/
theorem get_append {s : String} {before field after : List Char} {first last : ℕ}
    (hs : s.toList = before ++ (field ++ after)) (hfirst : size before = first)
    (hlast : first + size field = last) : get s first last = some (String.ofList field) := by
  unfold get slice
  rw [hs, ← hlast, ← hfirst, charsFrom_append, Nat.add_sub_cancel_left]
  show ((charsUpTo (size field) (field ++ after) >>= _) : Except _ _).toOption = _
  rw [charsUpTo_append]
  rfl

end Kerbridge.Tls

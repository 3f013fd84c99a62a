import Kerbridge.CertificateReader

/-!
# Certificates, and what is reported of them

A certificate as its standard describes it, with its optional parts, and its
encoding: the report of the encoding is the report of the certificate, except for an
attribute type whose dotted form loses something, and for an encoding longer than the
four bytes of a length count.
-/

namespace Kerbridge.Tls

open UnicodeText RetentionClock LossyText Timestamps ObjectIds Der Krbcred

/-- The value of an attribute of a name. -/
inductive Value where
  /-- Text in octets, under any tag but that of sixteen-bit units. -/
  | utf8 (tag : UInt8) (ne : tag ≠ BMP_STRING) (s : String)
  /-- Text in sixteen-bit units. -/
  | bmp (s : String)

/-- The element of a value. -/
def Value.element : Value → Element
  | .utf8 tag _ s => (tag, bytesOf s)
  | .bmp s => (BMP_STRING, (s.toList.flatMap utf16).flatMap (octets 2))

/-- The text of a value. -/
def Value.text : Value → String
  | .utf8 _ _ s => s
  | .bmp s => s

/-- An attribute of a name. -/
structure Attribute where
  type : Oid
  value : Value

/-- The contents of an attribute. -/
def Attribute.contents (a : Attribute) : List UInt8 :=
  tlv OID a.type.encode ++ tlv a.value.element.1 a.value.element.2

/-- A name: sets of attributes, in order. -/
abbrev Name := List (List Attribute)

/-- The contents of a name. -/
def Name.contents (n : Name) : List UInt8 :=
  (n.map fun set => (set.map Attribute.contents).flatMap (tlv SEQUENCE)).flatMap (tlv SET)

/-- The short names of attribute types. -/
def shortName (arcs : List ℕ) : Option String :=
  if arcs = [2, 5, 4, 3] then some "CN"
  else if arcs = [2, 5, 4, 6] then some "C"
  else if arcs = [2, 5, 4, 7] then some "L"
  else if arcs = [2, 5, 4, 8] then some "ST"
  else if arcs = [2, 5, 4, 10] then some "O"
  else if arcs = [2, 5, 4, 11] then some "OU"
  else if arcs = [0, 9, 2342, 19200300, 100, 1, 25] then some "DC"
  else none

/-- How an attribute type is printed: by its short name, or as exactly its dotted form. -/
def label (o : Oid) : String := (shortName o.arcs).getD o.decimal

/-- A name as it is to be printed. -/
def Name.text (n : Name) : String :=
  ", ".intercalate (n.flatten.map fun a => label a.type ++ "=" ++ a.value.text)

/-- A time of the calendar, to the second. -/
structure Instant where
  year : ℕ
  month : ℕ
  day : ℕ
  hour : ℕ
  minute : ℕ
  second : ℕ
  year_le : year ≤ 9999
  month_le : 1 ≤ month ∧ month ≤ 12
  day_le : 1 ≤ day ∧ day ≤ 31
  hour_le : hour ≤ 23
  minute_le : minute ≤ 59
  second_le : second ≤ 60

/-- The digits of a time behind its year. -/
def Instant.digits (i : Instant) : String :=
  padded 2 i.month ++ padded 2 i.day ++ padded 2 i.hour ++ padded 2 i.minute ++ padded 2 i.second ++ "Z"

/-- A time in one of its two forms. -/
inductive Time where
  | utc (i : Instant) (window : 1950 ≤ i.year ∧ i.year ≤ 2049)
  | generalized (i : Instant)

/-- The time in either form. -/
def Time.instant : Time → Instant
  | .utc i _ => i
  | .generalized i => i

/-- The element of a time. -/
def Time.element : Time → Element
  | .utc i _ => (UTC_TIME, bytesOf (padded 2 (i.year % 100) ++ i.digits))
  | .generalized i => (GENERALIZED_TIME, bytesOf (padded 4 i.year ++ i.digits))

/-- A time to the minute. -/
def Instant.text (i : Instant) : String :=
  padded 4 i.year ++ "-" ++ padded 2 i.month ++ "-" ++ padded 2 i.day ++ " " ++ padded 2 i.hour ++
    ":" ++ padded 2 i.minute ++ "Z"

/-- One of the alternative names. -/
inductive GeneralName where
  /-- A name of a host. -/
  | dns (s : String)
  /-- A name of another kind. -/
  | other (tag : UInt8) (ne : tag ≠ CONTEXT_2_PRIMITIVE) (contents : List UInt8)

/-- The element of an alternative name. -/
def GeneralName.element : GeneralName → Element
  | .dns s => (CONTEXT_2_PRIMITIVE, bytesOf s)
  | .other tag _ contents => (tag, contents)

/-- The name of a host that an alternative name is. -/
def GeneralName.dnsName : GeneralName → Option String
  | .dns s => some s
  | .other _ _ _ => none

/-- The path of the alternative names. -/
def subjectAltName : Oid := ⟨2, 5, [29, 17], by decide, by decide⟩

/-- The contents of an extension. -/
def extensionContents (oid : Oid) (critical : Bool) (value : List UInt8) : List UInt8 :=
  tlv OID oid.encode ++ ((if critical then tlv BOOLEAN [0xff] else []) ++ tlv OCTET_STRING value)

/-- An extension that is not that of the alternative names. -/
structure OtherExtension where
  oid : Oid
  ne : oid.arcs ≠ subjectAltName.arcs
  critical : Bool
  value : List UInt8

/-- The extension of the alternative names. -/
structure AltNames where
  critical : Bool
  names : List GeneralName

/-- The contents of the extension of the alternative names. -/
def AltNames.contents (a : AltNames) : List UInt8 :=
  extensionContents subjectAltName a.critical
    (tlv SEQUENCE ((a.names.map GeneralName.element).flatMap fun e => tlv e.1 e.2))

/-- The extensions of a certificate, the alternative names among them at most once. -/
structure Extensions where
  before : List OtherExtension
  altNames : Option AltNames
  after : List OtherExtension

/-- The contents of the extensions, in order. -/
def Extensions.contents (e : Extensions) : List (List UInt8) :=
  (e.before.map fun x => extensionContents x.oid x.critical x.value) ++
    (e.altNames.toList.map AltNames.contents ++
      e.after.map fun x => extensionContents x.oid x.critical x.value)

/-- A certificate. -/
structure Certificate where
  /-- The version, left out of a certificate of the first one. -/
  version : Option UInt8
  /-- The octets of the serial number. -/
  serial : List UInt8
  signature : List UInt8
  issuer : Name
  notBefore : Time
  notAfter : Time
  subject : Name
  publicKey : List UInt8
  issuerUniqueId : Option (List UInt8)
  subjectUniqueId : Option (List UInt8)
  extensions : Option Extensions
  signatureAlgorithm : List UInt8
  signatureValue : List UInt8

/-- The elements behind the public key. -/
def Certificate.optionals (c : Certificate) : List Element :=
  (c.issuerUniqueId.toList.map fun id => (0x81, id)) ++
    ((c.subjectUniqueId.toList.map fun id => (0x82, id)) ++
      c.extensions.toList.map fun e => (CONTEXT_3, tlv SEQUENCE (e.contents.flatMap (tlv SEQUENCE))))

/-- The contents of the signed part behind the serial number. -/
def Certificate.unserialized (c : Certificate) : List UInt8 :=
  tlv SEQUENCE c.signature ++ (tlv SEQUENCE c.issuer.contents ++
    (tlv SEQUENCE (tlv c.notBefore.element.1 c.notBefore.element.2 ++
      tlv c.notAfter.element.1 c.notAfter.element.2) ++
    (tlv SEQUENCE c.subject.contents ++ (tlv SEQUENCE c.publicKey ++
      c.optionals.flatMap fun e => tlv e.1 e.2))))

/-- The contents of the signed part behind the version. -/
def Certificate.unversioned (c : Certificate) : List UInt8 :=
  tlv tagInteger c.serial ++ c.unserialized

/-- The contents of the signed part. -/
def Certificate.tbs (c : Certificate) : List UInt8 :=
  match c.version with
  | none => c.unversioned
  | some v => tlv CONTEXT_0 (tlv tagInteger [v]) ++ c.unversioned

/-- The contents of a certificate. -/
def Certificate.contents (c : Certificate) : List UInt8 :=
  tlv SEQUENCE c.tbs ++ (tlv SEQUENCE c.signatureAlgorithm ++ tlv tagBitString c.signatureValue)

/-- A certificate in its distinguished encoding. -/
def Certificate.encode (c : Certificate) : List UInt8 := tlv SEQUENCE c.contents

/-- The names of hosts a certificate is for. -/
def Certificate.hosts (c : Certificate) : List String :=
  match c.extensions with
  | some ⟨_, some a, _⟩ => a.names.filterMap GeneralName.dnsName
  | _ => []

/-- What is to be reported of a certificate. -/
def Certificate.report (c : Certificate) : Peer where
  subject := c.subject.text
  issuer := c.issuer.text
  dnsNames := c.hosts
  notBefore := c.notBefore.instant.text
  notAfter := c.notAfter.instant.text

/-- Two octets for each unit are read back as the units. -/
theorem units_octets {l : List ℕ} (h : ∀ u ∈ l, u < 0x10000) : units (l.flatMap (octets 2)) = l := by
  induction l with
  | nil => rfl
  | cons u l ih =>
    obtain ⟨hu, hrest⟩ := List.forall_mem_cons.mp h
    have hhigh : (UInt8.ofNat (u / 256 ^ 1)).toNat = u / 256 := by
      rw [UInt8.toNat_ofNat']
      omega
    have hlow : (UInt8.ofNat (u / 256 ^ 0)).toNat = u % 256 := by
      rw [UInt8.toNat_ofNat']
      omega
    rw [List.flatMap_cons, octets, octets, octets, List.cons_append, List.cons_append, List.nil_append,
      units, hhigh, hlow, ih hrest]
    congr 1
    omega

/-- Every unit of a text is of sixteen bits. -/
theorem utf16_lt (cs : List Char) : ∀ u ∈ cs.flatMap utf16, u < 0x10000 := by
  intro u hu
  obtain ⟨c, -, hu⟩ := List.mem_flatMap.mp hu
  obtain ⟨-, hlast⟩ := char_range c
  unfold utf16 at hu
  split at hu
  · rw [List.mem_singleton] at hu
    omega
  · rw [List.mem_cons, List.mem_singleton] at hu
    omega

/-- The text of a value is read back from its element. -/
theorem text_element (v : Value) : text v.element.1 v.element.2 = v.text := by
  cases v with
  | utf8 tag ne s =>
    show text tag (bytesOf s) = s
    rw [text, if_neg ne, fromUtf8Lossy_bytesOf]
  | bmp s =>
    show text BMP_STRING ((s.toList.flatMap utf16).flatMap (octets 2)) = s
    rw [text, if_pos rfl, units_octets (utf16_lt _), fromUtf16_flatMap, String.ofList_toList]

/-- An attribute is read back, under the name its type is read as. -/
theorem attributeText_contents {a : Attribute} (h : Small a.contents) :
    attributeText a.contents = some (attributeName a.type.encode ++ "=" ++ a.value.text) := by
  unfold Attribute.contents at h ⊢
  unfold attributeText
  rw [next_small h.left.content, Option.bind_eq_bind, Option.bind_some]
  dsimp only
  rw [if_neg (not_not_intro rfl), next_last h.right.content, Option.bind_some, text_element]
  rfl

/-- A name is read back, each attribute in its place. -/
theorem name_contents {n : Name} (h : Small n.contents) : name n.contents =
    ", ".intercalate (n.flatten.map fun a => attributeName a.type.encode ++ "=" ++ a.value.text) := by
  have hset : ∀ set ∈ n, (whileTag SEQUENCE ((set.map Attribute.contents).flatMap (tlv SEQUENCE))).filterMap
      attributeText = set.map fun a => attributeName a.type.encode ++ "=" ++ a.value.text := by
    intro set hset
    have hsmall : Small ((set.map Attribute.contents).flatMap (tlv SEQUENCE)) :=
      (h.mem (List.mem_map.mpr ⟨set, hset, rfl⟩)).content
    rw [whileTag_tlv hsmall, List.filterMap_map, ← List.filterMap_eq_map]
    refine List.filterMap_congr fun a ha => ?_
    exact attributeText_contents (hsmall.mem (List.mem_map.mpr ⟨a, ha, rfl⟩)).content
  unfold name
  rw [show whileTag SET n.contents = _ from whileTag_tlv h, List.flatMap_map, List.flatMap_congr hset,
    List.map_flatten, List.flatMap_def]

/-- Object identifiers are told apart by their octets as by their paths. -/
theorem encode_eq_iff (o o' : Oid) : o.encode = o'.encode ↔ o.arcs = o'.arcs := by
  refine ⟨Oid.encode_injective, fun h => ?_⟩
  simp only [Oid.arcs, List.cons.injEq] at h
  obtain ⟨hfirst, hsecond, hrest⟩ := h
  unfold Oid.encode
  rw [hfirst, hsecond, hrest]

/-- The short names are read from the octets of their paths. -/
theorem attributeName_encode (o : Oid) :
    attributeName o.encode = (shortName o.arcs).getD (dotted o.encode) := by
  have hname (rest : List ℕ) : o.encode = (⟨2, 5, rest, by decide, by decide⟩ : Oid).encode ↔
      o.arcs = 2 :: 5 :: rest := encode_eq_iff o _
  have hcn : o.encode = [0x55, 0x04, 0x03] ↔ o.arcs = [2, 5, 4, 3] := hname [4, 3]
  have hc : o.encode = [0x55, 0x04, 0x06] ↔ o.arcs = [2, 5, 4, 6] := hname [4, 6]
  have hl : o.encode = [0x55, 0x04, 0x07] ↔ o.arcs = [2, 5, 4, 7] := hname [4, 7]
  have hst : o.encode = [0x55, 0x04, 0x08] ↔ o.arcs = [2, 5, 4, 8] := hname [4, 8]
  have ho : o.encode = [0x55, 0x04, 0x0a] ↔ o.arcs = [2, 5, 4, 10] := hname [4, 10]
  have hou : o.encode = [0x55, 0x04, 0x0b] ↔ o.arcs = [2, 5, 4, 11] := hname [4, 11]
  have hdc : o.encode = [0x09, 0x92, 0x26, 0x89, 0x93, 0xf2, 0x2c, 0x64, 0x01, 0x19] ↔
      o.arcs = [0, 9, 2342, 19200300, 100, 1, 25] := by
    have hoctets : (⟨0, 9, [2342, 19200300, 100, 1, 25], by decide, by decide⟩ : Oid).encode =
        [0x09, 0x92, 0x26, 0x89, 0x93, 0xf2, 0x2c, 0x64, 0x01, 0x19] := by decide
    rw [← hoctets]
    exact encode_eq_iff o _
  unfold attributeName shortName
  simp only [hcn, hc, hl, hst, ho, hou, hdc]
  split_ifs <;> rfl

/-- The paths with short names are plain. -/
theorem plain_of_shortName {o : Oid} {name : String} (h : shortName o.arcs = some name) : o.Plain := by
  have hplain : ∀ {first second : ℕ} {rest : List ℕ}, o.arcs = first :: second :: rest →
      second < 40 → (∀ a ∈ rest, a < 2 ^ 64) → o.Plain := by
    intro first second rest harcs hsecond hrest
    simp only [Oid.arcs, List.cons.injEq] at harcs
    obtain ⟨-, rfl, rfl⟩ := harcs
    exact ⟨hsecond, hrest⟩
  unfold shortName at h
  split_ifs at h with hcn hc hl hst ho hou hdc
  · exact hplain hcn (by decide) (by decide)
  · exact hplain hc (by decide) (by decide)
  · exact hplain hl (by decide) (by decide)
  · exact hplain hst (by decide) (by decide)
  · exact hplain ho (by decide) (by decide)
  · exact hplain hou (by decide) (by decide)
  · exact hplain hdc (by decide) (by decide)

/-- The type of an attribute is read as its label exactly when it is plain. -/
theorem attributeName_encode_iff (o : Oid) : attributeName o.encode = label o ↔ o.Plain := by
  rw [attributeName_encode, label]
  cases hname : shortName o.arcs with
  | none => exact dotted_encode_iff o
  | some name => exact ⟨fun _ => plain_of_shortName hname, fun _ => rfl⟩

/-- Decimal numbers with dots between them hold no equals sign. -/
theorem decimals_free (l : List ℕ) : '=' ∉ (".".intercalate (l.map toString)).toList := by
  induction l with
  | nil => simp
  | cons n l ih =>
    have hn : '=' ∉ (toString n).toList := by
      intro hmem
      have hdigit := Nat.isDigit_of_mem_toDigits (b := 10) (n := n) (by decide) (by decide)
        (by simpa using hmem)
      simp at hdigit
    rw [List.map_cons]
    cases l with
    | nil =>
      rw [List.map_nil, String.intercalate_singleton]
      exact hn
    | cons m l =>
      rw [String.intercalate_cons_of_ne_nil (by simp), String.toList_append, String.toList_append,
        List.mem_append, List.mem_append]
      rintro ((hmem | hmem) | hmem)
      · exact hn hmem
      · simp at hmem
      · exact ih hmem

/-- A dotted form holds no equals sign. -/
theorem dotted_free (oid : List UInt8) : '=' ∉ (dotted oid).toList := by
  cases oid with
  | nil => decide
  | cons first rest => exact decimals_free _

/-- A short name holds no equals sign. -/
theorem shortName_free {arcs : List ℕ} {name : String} (h : shortName arcs = some name) :
    '=' ∉ name.toList := by
  unfold shortName at h
  split_ifs at h <;> cases h <;> decide

/-- How an attribute type is read and how it is to be printed hold no equals sign. -/
theorem unequalled_names (o : Oid) : '=' ∉ (attributeName o.encode).toList ∧ '=' ∉ (label o).toList := by
  rw [attributeName_encode, label]
  cases hname : shortName o.arcs with
  | none => exact ⟨dotted_free _, decimals_free o.arcs⟩
  | some name => exact ⟨shortName_free hname, shortName_free hname⟩

/-- Texts alike are alike up to the first of a character, and behind it. -/
theorem alike_at_first {c : Char} {a b x y : List Char} (ha : c ∉ a) (hb : c ∉ b)
    (h : a ++ c :: x = b ++ c :: y) : a = b ∧ x = y := by
  induction a generalizing b with
  | nil =>
    cases b with
    | nil => exact ⟨rfl, (List.cons.inj h).2⟩
    | cons d b => exact absurd (List.cons.inj h).1 (List.ne_of_not_mem_cons hb)
  | cons e a ih =>
    cases b with
    | nil => exact absurd (List.cons.inj h).1.symm (List.ne_of_not_mem_cons ha)
    | cons d b =>
      obtain ⟨rfl, hrest⟩ := List.cons.inj h
      obtain ⟨rfl, hxy⟩ := ih (List.not_mem_of_not_mem_cons ha) (List.not_mem_of_not_mem_cons hb) hrest
      exact ⟨rfl, hxy⟩

/-- Attributes with the same values are printed alike only under the same names. -/
theorem parts_injective {l : List (String × String × String)}
    (hfree : ∀ p ∈ l, '=' ∉ p.1.toList ∧ '=' ∉ p.2.1.toList)
    (h : ", ".intercalate (l.map fun p => p.1 ++ "=" ++ p.2.2) =
      ", ".intercalate (l.map fun p => p.2.1 ++ "=" ++ p.2.2)) : ∀ p ∈ l, p.1 = p.2.1 := by
  induction l with
  | nil => simp
  | cons p l ih =>
    obtain ⟨⟨hread, hprinted⟩, hrest⟩ := List.forall_mem_cons.mp hfree
    rw [List.map_cons, List.map_cons] at h
    cases l with
    | nil =>
      rw [List.map_nil, List.map_nil, String.intercalate_singleton, String.intercalate_singleton] at h
      have hchars := congrArg String.toList h
      simp only [String.toList_append, List.append_assoc] at hchars
      rw [List.forall_mem_singleton]
      exact String.toList_injective (alike_at_first hread hprinted hchars).1
    | cons q l =>
      rw [String.intercalate_cons_of_ne_nil (by simp), String.intercalate_cons_of_ne_nil (by simp)] at h
      have hchars := congrArg String.toList h
      simp only [String.toList_append, List.append_assoc] at hchars
      obtain ⟨hname, hbehind⟩ := alike_at_first hread hprinted hchars
      have hvalue : p.2.2.toList ++ (", ".toList ++ _) = p.2.2.toList ++ (", ".toList ++ _) := hbehind
      have htail := List.append_cancel_left (List.append_cancel_left hvalue)
      exact List.forall_mem_cons.mpr ⟨String.toList_injective hname,
        ih hrest (String.toList_injective htail)⟩

/-- A name is read back as it is to be printed exactly when its attribute types are plain. -/
theorem name_contents_iff {n : Name} (h : Small n.contents) :
    name n.contents = n.text ↔ ∀ a ∈ n.flatten, a.type.Plain := by
  rw [name_contents h, Name.text]
  constructor
  · intro heq a ha
    rw [← attributeName_encode_iff]
    refine parts_injective (l := n.flatten.map fun a =>
      (attributeName a.type.encode, label a.type, a.value.text)) ?_ ?_ (_, _, _)
      (List.mem_map.mpr ⟨a, ha, rfl⟩)
    · intro p hp
      obtain ⟨b, -, rfl⟩ := List.mem_map.mp hp
      exact unequalled_names b.type
    · rw [List.map_map, List.map_map]
      exact heq
  · intro hplain
    congr 1
    refine List.map_congr_left fun a ha => ?_
    rw [(attributeName_encode_iff a.type).mpr (hplain a ha)]

/-- The digits of a time to the minute. -/
def Instant.front (i : Instant) : String :=
  padded 2 i.month ++ padded 2 i.day ++ padded 2 i.hour ++ padded 2 i.minute

/-- The fields of a time are of two octets each. -/
theorem Instant.sizes (i : Instant) : size (padded 2 i.month).toList = 2 ∧
    size (padded 2 i.day).toList = 2 ∧ size (padded 2 i.hour).toList = 2 ∧
    size (padded 2 i.minute).toList = 2 := by
  obtain ⟨-, hmonth⟩ := i.month_le
  obtain ⟨-, hday⟩ := i.day_le
  have hhour := i.hour_le
  have hminute := i.minute_le
  exact ⟨padded_size (by omega), padded_size (by omega), padded_size (by omega), padded_size (by omega)⟩

/-- Part of a text is read by its place. -/
theorem get_field {s before field after : String} {first last : ℕ} (hs : s = before ++ field ++ after)
    (hfirst : size before.toList = first) (hlast : first + size field.toList = last) :
    get s first last = some field := by
  have hread :=
    @get_append s before.toList field.toList after.toList _ _ (by rw [hs]; simp) hfirst hlast
  rwa [String.ofList_toList] at hread

/-- The fields of a time are read by their places. -/
theorem Instant.get_front (i : Instant) : get i.front 0 2 = some (padded 2 i.month) ∧
    get i.front 2 4 = some (padded 2 i.day) ∧ get i.front 4 6 = some (padded 2 i.hour) ∧
    get i.front 6 8 = some (padded 2 i.minute) := by
  obtain ⟨hmonth, hday, hhour, hminute⟩ := i.sizes
  refine ⟨@get_field _ "" _ (padded 2 i.day ++ padded 2 i.hour ++ padded 2 i.minute) _ _ ?_ rfl
      (by rw [hmonth]),
    @get_field _ (padded 2 i.month) _ (padded 2 i.hour ++ padded 2 i.minute) _ _ ?_ hmonth
      (by rw [hday]),
    @get_field _ (padded 2 i.month ++ padded 2 i.day) _ (padded 2 i.minute) _ _ ?_ ?_
      (by rw [hhour]),
    @get_field _ (padded 2 i.month ++ padded 2 i.day ++ padded 2 i.hour) _ "" _ _ ?_ ?_
      (by rw [hminute])⟩
  · simp [Instant.front, String.append_assoc]
  · simp [Instant.front, String.append_assoc]
  · rfl
  · rw [String.toList_append, size_append, hmonth, hday]
  · simp [Instant.front]
  · rw [String.toList_append, String.toList_append, size_append, size_append, hmonth, hday, hhour]

/-- A written number is read at the width of its type. -/
theorem parseI32_padded {w n : ℕ} (h : n < 10 ^ (w + 1)) (hn : n ≤ 9999) :
    parseI32 (padded (w + 1) n) = some (n : ℤ) := by
  obtain ⟨hdigits, hvalue⟩ := padded_digits (w := w + 1) (Nat.succ_pos w) h
  unfold parseI32
  rw [parseSigned_digits hdigits, hvalue, Option.filter_some, if_pos]
  rw [Bool.and_eq_true, decide_eq_true_eq, decide_eq_true_eq]
  omega

/-- The year of a time is read, and its digits behind it to the minute. -/
theorem Time.yearOf_element (t : Time) : ∃ digits, fromUtf8 t.element.2 = some digits ∧
    yearOf t.element.1 digits = some ((t.instant.year : ℤ), t.instant.front) := by
  have hfront : ∀ i : Instant, size i.front.toList = 8 ∧ i.digits = i.front ++ (padded 2 i.second ++ "Z") := by
    intro i
    obtain ⟨hmonth, hday, hhour, hminute⟩ := i.sizes
    refine ⟨?_, by simp [Instant.digits, Instant.front, String.append_assoc]⟩
    simp only [Instant.front, String.toList_append, size_append, hmonth, hday, hhour, hminute]
  cases t with
  | utc i window =>
    obtain ⟨hsize, hdigits⟩ := hfront i
    have htwo : size (padded 2 (i.year % 100)).toList = 2 := padded_size (by omega)
    refine ⟨padded 2 (i.year % 100) ++ i.digits, fromUtf8_bytesOf _, ?_⟩
    have hyy : get (padded 2 (i.year % 100) ++ i.digits) 0 2 = some (padded 2 (i.year % 100)) :=
      @get_field _ "" _ i.digits _ _ (by simp) rfl (by rw [htwo])
    have hrest : get (padded 2 (i.year % 100) ++ i.digits) 2 10 = some i.front :=
      @get_field _ _ _ (padded 2 i.second ++ "Z") _ _ (by rw [hdigits, String.append_assoc]) htwo
        (by rw [hsize])
    show yearOf UTC_TIME _ = some ((i.year : ℤ), i.front)
    unfold yearOf
    rw [if_pos rfl, hyy, Option.bind_eq_bind, Option.bind_some,
      parseI32_padded (w := 1) (by omega) (by omega), Option.bind_eq_bind, Option.bind_some, hrest, Option.bind_some]
    split
    · have hyear : (2000 + ((i.year % 100 : ℕ) : ℤ)) = i.year := by omega
      rw [hyear]
      rfl
    · have hyear : (1900 + ((i.year % 100 : ℕ) : ℤ)) = i.year := by omega
      rw [hyear]
      rfl
  | generalized i =>
    obtain ⟨hsize, hdigits⟩ := hfront i
    have hbound := i.year_le
    have hfour : size (padded 4 i.year).toList = 4 := padded_size (by omega)
    refine ⟨padded 4 i.year ++ i.digits, fromUtf8_bytesOf _, ?_⟩
    have hyear : get (padded 4 i.year ++ i.digits) 0 4 = some (padded 4 i.year) :=
      @get_field _ "" _ i.digits _ _ (by simp) rfl (by rw [hfour])
    have hrest : get (padded 4 i.year ++ i.digits) 4 12 = some i.front :=
      @get_field _ _ _ (padded 2 i.second ++ "Z") _ _ (by rw [hdigits, String.append_assoc]) hfour
        (by rw [hsize])
    show yearOf GENERALIZED_TIME _ = some ((i.year : ℤ), i.front)
    unfold yearOf
    rw [if_neg (by decide), if_pos rfl, hyear, Option.bind_eq_bind, Option.bind_some,
      parseI32_padded (w := 3) (by omega) (by omega), Option.bind_eq_bind, Option.bind_some, hrest]
    rfl

/-- A time is read back to the minute. -/
theorem time_element (t : Time) : time t.element = some t.instant.text := by
  obtain ⟨digits, hdigits, hyear⟩ := t.yearOf_element
  obtain ⟨hmonth, hday, hhour, hminute⟩ := t.instant.get_front
  unfold time
  rw [hdigits, Option.bind_eq_bind, Option.bind_some, hyear, Option.bind_eq_bind, Option.bind_some]
  dsimp only
  rw [hmonth, hday, hhour, hminute]
  simp only [Option.bind_some]
  rw [zeroPadded_natCast]
  rfl

/-- The octets of the path of the alternative names are those it is known by. -/
theorem subjectAltName_encode : subjectAltName.encode = OID_SUBJECT_ALT_NAME := by decide

/-- Another extension gives no names. -/
theorem altNames_other (x : OtherExtension)
    (h : Small (extensionContents x.oid x.critical x.value)) :
    altNames (extensionContents x.oid x.critical x.value) = none := by
  have hoid : x.oid.encode ≠ OID_SUBJECT_ALT_NAME := by
    rw [← subjectAltName_encode, Ne, encode_eq_iff]
    exact x.ne
  unfold extensionContents at h ⊢
  unfold altNames
  rw [next_small h.left.content, Option.bind_eq_bind, Option.bind_some]
  exact if_pos (.inr hoid)

/-- The extension of the alternative names gives the names of hosts, in order. -/
theorem altNames_contents {a : AltNames} (h : Small a.contents) :
    altNames a.contents = some (a.names.filterMap GeneralName.dnsName) := by
  obtain ⟨critical, names⟩ := a
  unfold AltNames.contents extensionContents at h ⊢
  have hvalue := h.right.right.content
  have hnames : ((names.map GeneralName.element).filterMap fun e =>
      if e.1 = CONTEXT_2_PRIMITIVE then some (fromUtf8Lossy e.2) else none) =
      names.filterMap GeneralName.dnsName := by
    rw [List.filterMap_map]
    refine List.filterMap_congr fun g _ => ?_
    cases g with
    | dns s =>
      show (if CONTEXT_2_PRIMITIVE = CONTEXT_2_PRIMITIVE then some (fromUtf8Lossy (bytesOf s)) else none) =
        some s
      rw [if_pos rfl, fromUtf8Lossy_bytesOf]
    | other tag ne contents => exact if_neg ne
  have hread := elements_tlv hvalue.content
  have hwrapped := seq_last hvalue.content
  unfold altNames
  rw [next_small h.left.content, Option.bind_eq_bind, Option.bind_some]
  dsimp only at h hvalue hread hwrapped ⊢
  rw [if_neg (by simp [subjectAltName_encode])]
  generalize (names.map GeneralName.element).flatMap (fun e => tlv e.1 e.2) = general at *
  cases critical with
  | true =>
    have hflag : next (tlv BOOLEAN [0xff] ++ tlv OCTET_STRING (tlv SEQUENCE general)) =
        some ((BOOLEAN, [0xff]), tlv OCTET_STRING (tlv SEQUENCE general)) := next_small (by decide) _
    rw [if_pos rfl, hflag, Option.bind_eq_bind, Option.bind_some]
    dsimp only
    rw [if_neg (by decide), if_pos rfl, next_last hvalue, Option.bind_eq_bind, Option.bind_some]
    dsimp only
    rw [if_pos rfl, Option.bind_some, hwrapped, Option.bind_some, hread]
    exact congrArg some hnames
  | false =>
    rw [if_neg Bool.false_ne_true, List.nil_append, next_last hvalue, Option.bind_eq_bind,
      Option.bind_some]
    dsimp only
    rw [if_pos rfl, Option.bind_some, hwrapped, Option.bind_eq_bind, Option.bind_some, hread]
    exact congrArg some hnames

/-- The extensions give the names of hosts. -/
theorem names_of_extensions {e : Extensions} (h : Small (e.contents.flatMap (tlv SEQUENCE))) :
    (e.contents.findSome? altNames).getD [] =
      match e.altNames with
      | some a => a.names.filterMap GeneralName.dnsName
      | none => [] := by
  have hsmall : ∀ c ∈ e.contents, Small c := fun c hc => (h.mem hc).content
  unfold Extensions.contents at hsmall ⊢
  have hnone : ∀ l : List OtherExtension, (∀ x ∈ l, Small (extensionContents x.oid x.critical x.value)) →
      (l.map fun x => extensionContents x.oid x.critical x.value).findSome? altNames = none := by
    intro l hl
    rw [List.findSome?_eq_none_iff]
    intro c hc
    obtain ⟨x, hx, rfl⟩ := List.mem_map.mp hc
    exact altNames_other x (hl x hx)
  rw [List.findSome?_append, List.findSome?_append,
    hnone e.before fun x hx => hsmall _ (List.mem_append_left _ (List.mem_map.mpr ⟨x, hx, rfl⟩)),
    hnone e.after fun x hx => hsmall _ (List.mem_append_right _ (List.mem_append_right _
      (List.mem_map.mpr ⟨x, hx, rfl⟩)))]
  cases ha : e.altNames with
  | none => rfl
  | some a =>
    have hown := altNames_contents (hsmall a.contents (List.mem_append_right _
      (List.mem_append_left _ (by simp [ha]))))
    simp [hown]

/-- The names of hosts are read back, in order. -/
theorem dnsNames_optionals {c : Certificate} (h : Small (c.optionals.flatMap fun e => tlv e.1 e.2)) :
    Tls.dnsNames (c.optionals.flatMap fun e => tlv e.1 e.2) = c.hosts := by
  unfold Tls.dnsNames
  rw [elements_tlv h]
  have hids : ∀ (tag : UInt8) (id : Option (List UInt8)), tag ≠ CONTEXT_3 →
      (id.toList.map fun id => ((tag, id) : Element)).find? (fun e => e.1 = CONTEXT_3) = none := by
    intro tag id htag
    rw [List.find?_eq_none]
    intro e he
    obtain ⟨x, -, rfl⟩ := List.mem_map.mp he
    simpa using htag
  have hfound : (c.optionals.find? fun e => e.1 = CONTEXT_3) = c.extensions.map fun e =>
      (CONTEXT_3, tlv SEQUENCE (e.contents.flatMap (tlv SEQUENCE))) := by
    unfold Certificate.optionals
    rw [List.find?_append, List.find?_append, hids 0x81 _ (by decide), hids 0x82 _ (by decide)]
    cases c.extensions with
    | none => rfl
    | some e => rfl
  rw [hfound]
  unfold Certificate.hosts
  cases hext : c.extensions with
  | none => rfl
  | some e =>
    have hmem : (CONTEXT_3, tlv SEQUENCE (e.contents.flatMap (tlv SEQUENCE))) ∈ c.optionals := by
      unfold Certificate.optionals
      rw [hext]
      simp
    have hsmall := (h.mem hmem).content
    rw [Option.map_some]
    dsimp only
    rw [seq_last hsmall.content]
    dsimp only
    rw [whileTag_tlv hsmall.content, names_of_extensions hsmall.content]
    obtain ⟨before, own, after⟩ := e
    cases own with
    | none => rfl
    | some a => rfl

/-- The serial number of a certificate is read, behind the version if there is one. -/
theorem behindSerial_tbs {c : Certificate} (h : Small c.tbs) : ∃ tag contents rest,
    next c.tbs = some ((tag, contents), rest) ∧ behindSerial tag rest = some c.unserialized ∧
      Small c.unserialized := by
  unfold Certificate.tbs at h ⊢
  cases hversion : c.version with
  | none =>
    rw [hversion] at h
    unfold Certificate.unversioned at h
    exact ⟨tagInteger, c.serial, _, next_small h.left.content _, if_neg (by decide), h.right⟩
  | some v =>
    rw [hversion] at h
    dsimp only at h
    unfold Certificate.unversioned at h
    refine ⟨CONTEXT_0, _, _, next_small h.left.content _, ?_, h.right.right⟩
    unfold behindSerial Certificate.unversioned
    rw [if_pos rfl, next_small h.right.left.content]
    rfl

/-- What is read of a small certificate. -/
theorem fromDer_small {c : Certificate} (h : Small c.contents) : Peer.fromDer c.encode =
    some ⟨name c.subject.contents, name c.issuer.contents, c.hosts, c.notBefore.instant.text,
      c.notAfter.instant.text⟩ := by
  have hcontents := h
  unfold Certificate.contents at hcontents
  have htbs := hcontents.left.content
  obtain ⟨tag, contents, rest, hfirst, hversion, hsmall⟩ := behindSerial_tbs htbs
  unfold Certificate.unserialized at hsmall hversion
  have hsignature := hsmall.left.content
  have hissuer := hsmall.right.left.content
  have hvalidity := hsmall.right.right.left.content
  have hsubject := hsmall.right.right.right.left.content
  have hkey := hsmall.right.right.right.right.left.content
  have hoptionals := hsmall.right.right.right.right.right
  unfold Peer.fromDer Certificate.encode
  rw [seq_last h, Option.bind_eq_bind, Option.bind_some]
  unfold Certificate.contents
  dsimp only
  simp only [seq_small htbs, hfirst, hversion, next_small hsignature, seq_small hissuer,
    seq_small hvalidity, next_small hvalidity.left.content, next_last hvalidity.right.content,
    seq_small hsubject, next_small hkey, dnsNames_optionals hoptionals, Option.bind_eq_bind,
    Option.bind_some]
  rw [time_element, Option.bind_some, time_element, Option.bind_some]
  rfl

/-- A certificate is reported as it is exactly when its contents are no longer than four bytes
of a length count, and the types of its names' attributes are plain. -/
theorem fromDer_encode_iff (c : Certificate) (h : Fits c.encode) :
    Peer.fromDer c.encode = some c.report ↔
      Small c.contents ∧ ∀ a ∈ c.issuer.flatten ++ c.subject.flatten, a.type.Plain := by
  by_cases hsmall : Small c.contents
  · have hcontents := hsmall
    unfold Certificate.contents at hcontents
    obtain ⟨-, -, -, -, -, hbehind⟩ := behindSerial_tbs hcontents.left.content
    unfold Certificate.unserialized at hbehind
    have hissuer := hbehind.right.left.content
    have hsubject := hbehind.right.right.right.left.content
    rw [fromDer_small hsmall, Option.some_inj, Certificate.report, Peer.mk.injEq,
      name_contents_iff hsubject, name_contents_iff hissuer]
    simp only [List.forall_mem_append]
    constructor
    · rintro ⟨hs, hi, -⟩
      exact ⟨hsmall, hi, hs⟩
    · rintro ⟨-, hi, hs⟩
      exact ⟨hs, hi, trivial, trivial, trivial⟩
  · constructor
    · intro hread
      have hnone : next c.encode = none := by
        have hlong := @next_tlv SEQUENCE _ h.content []
        rw [List.append_nil] at hlong
        exact hlong.trans (if_neg hsmall)
      unfold Peer.fromDer seq at hread
      rw [hnone] at hread
      cases hread
    · intro hgood
      exact absurd hgood.1 hsmall

/-- On any octets, an element that is read lies in them, and a loop over them goes on behind each
element and ends. A certificate is reported as it is exactly when its contents are no longer
than four bytes of a length count, and the types of its names' attributes are plain. -/
theorem certificate_reported_iff (bytes : List UInt8) (c : Certificate) (h : Fits c.encode) :
    (∀ e rest, next bytes = some (e, rest) → ∃ header, bytes = e.1 :: (header ++ (e.2 ++ rest))) ∧
    (elements bytes = match next bytes with
      | some (e, rest) => e :: elements rest
      | none => []) ∧
    (Peer.fromDer c.encode = some c.report ↔
      Small c.contents ∧ ∀ a ∈ c.issuer.flatten ++ c.subject.flatten, a.type.Plain) :=
  ⟨fun _ _ => next_within, elements_eq bytes, fromDer_encode_iff c h⟩

/-- A certificate of one host, its issuer named by an attribute of a type. -/
def hostCertificate (type : Oid) : Certificate where
  version := some 2
  serial := [1]
  signature := []
  issuer := [[⟨type, .utf8 0x0c (by decide) "Example LAN CA"⟩]]
  notBefore := .utc ⟨2026, 1, 2, 3, 4, 5, by decide, by decide, by decide, by decide, by decide,
    by decide⟩ (by decide)
  notAfter := .generalized ⟨2055, 1, 2, 3, 4, 5, by decide, by decide, by decide, by decide,
    by decide, by decide⟩
  subject := [[⟨⟨2, 5, [4, 3], by decide, by decide⟩, .bmp "broker"⟩]]
  publicKey := []
  issuerUniqueId := none
  subjectUniqueId := some [0]
  extensions := some ⟨[], some ⟨true, [.dns "kerbridge.example.site"]⟩, []⟩
  signatureAlgorithm := []
  signatureValue := [0]

/-- An issuer of an electronic mail address is reported under the dotted form of its type. -/
theorem certificate_reported_mail :
    Peer.fromDer (hostCertificate ⟨1, 2, [840, 113549, 1, 9, 1], by decide, by decide⟩).encode =
      some (hostCertificate ⟨1, 2, [840, 113549, 1, 9, 1], by decide, by decide⟩).report :=
  (certificate_reported_iff [] _ (by unfold Fits; decide +kernel)).2.2.mpr ⟨by decide +kernel, by decide +kernel⟩

/-- A type of the joint arc is reported under another dotted form. -/
theorem certificate_misreported : ¬∀ c : Certificate, Fits c.encode → Small c.contents →
    Peer.fromDer c.encode = some c.report := by
  intro h
  have hfits : Fits (hostCertificate ⟨2, 999, [1], by decide, by decide⟩).encode := by
    unfold Fits
    decide +kernel
  have hsmall : Small (hostCertificate ⟨2, 999, [1], by decide, by decide⟩).contents := by
    decide +kernel
  have hread := (fromDer_encode_iff _ hfits).mp (h _ hfits hsmall)
  have hplain := hread.2 ⟨⟨2, 999, [1], by decide, by decide⟩, .utf8 0x0c (by decide) "Example LAN CA"⟩
    (List.mem_append_left _ (by simp [hostCertificate]))
  exact absurd hplain (by decide)

end Kerbridge.Tls

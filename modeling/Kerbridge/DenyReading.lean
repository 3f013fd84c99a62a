import Kerbridge.IdentityDeny
import Kerbridge.LdifReading

/-!
# What the bootstrap reads of a directory

An object is read with its name and its descriptor if both their lines are read as printed.
A value that is not safe to print comes back escaped, in which no entry can stand, and which
names no object.
-/

namespace Kerbridge.Setup

open UnicodeText LossyText Ldif Sddl

section Records

/-- A safe value may be printed as it is. -/
theorem isPlain_of_isSafe {value : List UInt8} (h : isSafe value = true) : isPlain value = true := by
  simp only [isSafe, Bool.and_eq_true, List.all_eq_true, decide_eq_true_eq] at h
  rw [isPlain_iff]
  intro b hb
  have hrange := h.1.1 b hb
  have hlow : 32 ≤ b.toNat := UInt8.le_iff_toNat_le.mp hrange.1
  have hhigh : b.toNat ≤ 126 := UInt8.le_iff_toNat_le.mp hrange.2
  refine ⟨UInt8.lt_iff_toNat_lt.mpr (by simp; omega), ?_, ?_⟩
  · rintro rfl
    simp at hlow
  · rintro rfl
    simp at hlow

/-- How a value is read: as it is if it was safe, else escaped. -/
def shown (value : List UInt8) : String :=
  if isSafe value then String.ofList (asciiChars value) else escaped value

/-- A safe text is read as that text. -/
theorem shown_bytesOf {text : String} (h : isSafe (bytesOf text) = true) :
    shown (bytesOf text) = text := by
  unfold shown
  rw [if_pos h, ofList_asciiChars (isPlain_of_isSafe h), fromUtf8Lossy_bytesOf]

/-- Every line of a record is read as it was printed. -/
def Readable (r : Record) : Prop := ∀ l ∈ r.all, l.Clear

instance (r : Record) : Decidable (Readable r) := inferInstanceAs (Decidable (∀ l ∈ r.all, l.Clear))

variable {dn value : List UInt8} {attr : String} {r : Record}

/-- What a record is read as, its name and its attribute. -/
theorem RecordOf.values (h : RecordOf dn attr value r) (hattr : ':' ∉ attr.toList)
    (hne : attr ≠ "dn") : ∃ l, r.all = [r.dn, l] ∧
      (r.readBy escaped).values "dn" = (if r.dn.Clear then [shown dn] else []) ∧
        (r.readBy escaped).values attr = if l.Clear then [shown value] else [] := by
  obtain ⟨l, hl, hname, hvalue⟩ := h.lines
  have hall : r.all = [r.dn, l] := by rw [Record.all, hl]
  have hdn : String.ofList r.dn.attr = "dn" := by rw [r.named, String.ofList_toList]
  have hlattr : String.ofList l.attr = attr := by rw [hname, String.ofList_toList]
  have hshown : ∀ l ∈ r.all, l.shownBy escaped = shown l.value := by
    intro l hl
    unfold Line.shownBy shown
    rw [h.safely l hl]
  have hshowdn : r.dn.shownBy escaped = shown dn := by
    rw [hshown r.dn List.mem_cons_self, h.dn]
  have hshowl : l.shownBy escaped = shown value := by
    rw [hshown l (by rw [hall]; simp), hvalue]
  refine ⟨l, hall, ?_, ?_⟩
  · rw [Record.readBy_values escaped r (fun _ _ _ => by decide), hall]
    have hfilter : [r.dn, l].filter (fun l => decide (String.ofList l.attr = "dn")) = [r.dn] := by
      simp [hdn, hlattr, hne]
    rw [hfilter]
    by_cases hclear : r.dn.Clear
    · simp [hclear, hshowdn]
    · simp [hclear]
  · rw [Record.readBy_values escaped r (fun _ _ _ => hattr), hall]
    have hfilter : [r.dn, l].filter (fun l => decide (String.ofList l.attr = attr)) = [l] := by
      simp [hdn, hlattr, hne.symm]
    rw [hfilter]
    by_cases hclear : l.Clear
    · simp [hclear, hshowl]
    · simp [hclear]

/-- Whether a record is an entry: whether its name is read. -/
theorem RecordOf.entry (h : RecordOf dn attr value r) (hne : attr ≠ "dn") :
    r.entryBy escaped = if r.dn.Clear then some (r.readBy escaped) else none := by
  obtain ⟨l, hl, hname, hvalue⟩ := h.lines
  have hlattr : String.ofList l.attr = attr := by rw [hname, String.ofList_toList]
  have hdn : String.ofList r.dn.attr = "dn" := by rw [r.named, String.ofList_toList]
  have hsome : ((r.readBy escaped).lookup "dn").isSome = true ↔ r.dn.Clear := by
    unfold Record.readBy
    rw [isSome_lookup_foldl]
    constructor
    · rintro (hnil | ⟨p, hp, hpdn⟩)
      · simp at hnil
      · obtain ⟨q, hq, hqp⟩ := List.mem_filterMap.mp hp
        obtain ⟨line, hline, rfl⟩ := List.mem_map.mp hq
        by_contra hno
        have hcolon : ':' ∉ p.1.toList := by rw [hpdn]; decide
        by_cases hclear : line.Clear
        · have hread : line.readBy escaped = some p := hqp
          rw [Line.readBy_clear escaped hclear] at hread
          cases hread
          rw [Record.all, hl] at hline
          rcases List.mem_cons.mp hline with rfl | hline
          · exact hno hclear
          · rw [List.mem_singleton.mp hline, hlattr] at hpdn
            exact hne hpdn
        · exact hcolon (Line.readBy_unclear escaped hclear hqp)
    · intro hclear
      refine Or.inr ⟨(String.ofList r.dn.attr, r.dn.shownBy escaped), ?_, hdn⟩
      refine List.mem_filterMap.mpr ⟨_, List.mem_map_of_mem List.mem_cons_self, ?_⟩
      exact Line.readBy_clear escaped hclear
  unfold Record.entryBy
  by_cases hclear : r.dn.Clear
  · rw [if_pos (hsome.mpr hclear), if_pos hclear]
  · rw [if_neg fun h => hclear (hsome.mp h), if_neg hclear]

/-- A record that is read as printed is an entry, with its name and its attribute. -/
theorem RecordOf.readable (h : RecordOf dn attr value r) (hattr : ':' ∉ attr.toList)
    (hne : attr ≠ "dn") (hread : Readable r) : ∃ e, r.entryBy escaped = some e ∧
      first e "dn" = some (shown dn) ∧ first e attr = some (shown value) := by
  obtain ⟨l, hall, hdn, hl⟩ := h.values hattr hne
  have hcdn : r.dn.Clear := hread _ List.mem_cons_self
  have hcl : l.Clear := hread l (by rw [hall]; simp)
  refine ⟨r.readBy escaped, by rw [h.entry hne, if_pos hcdn], ?_, ?_⟩
  · rw [first, hdn, if_pos hcdn]
    rfl
  · rw [first, hl, if_pos hcl]
    rfl

/-- A record that is not read as printed is no entry, or one without its attribute. -/
theorem RecordOf.unreadable (h : RecordOf dn attr value r) (hattr : ':' ∉ attr.toList)
    (hne : attr ≠ "dn") (hread : ¬ Readable r) : r.entryBy escaped = none ∨
      ∃ e, r.entryBy escaped = some e ∧ first e attr = none := by
  obtain ⟨l, hall, hdn, hl⟩ := h.values hattr hne
  by_cases hcdn : r.dn.Clear
  · have hcl : ¬ l.Clear := by
      intro hcl
      refine hread ?_
      intro line hline
      rw [hall] at hline
      rcases List.mem_cons.mp hline with rfl | hline
      · exact hcdn
      · rw [List.mem_singleton.mp hline]
        exact hcl
    refine Or.inr ⟨r.readBy escaped, by rw [h.entry hne, if_pos hcdn], ?_⟩
    rw [first, hl, if_neg hcl]
    rfl
  · exact Or.inl (by rw [h.entry hne, if_neg hcdn])

/-- The entries of a search about one object. -/
theorem entries_single {doc : Document} (hdoc : doc.records = [r]) :
    entries (String.ofList doc.print) = (r.entryBy escaped).toList := by
  unfold entries
  rw [String.toList_ofList, entriesBy_print, hdoc]
  cases h : r.entryBy escaped with
  | none => simp [h]
  | some e => simp [h]

/-- The attribute of the one object a search is about. -/
theorem RecordOf.found (h : RecordOf dn attr value r) (hattr : ':' ∉ attr.toList)
    (hne : attr ≠ "dn") :
    (r.entryBy escaped).bind (first · attr) = if Readable r then some (shown value) else none := by
  by_cases hread : Readable r
  · obtain ⟨e, he, _, hvalue⟩ := h.readable hattr hne hread
    rw [he, if_pos hread]
    exact hvalue
  · rw [if_neg hread]
    rcases h.unreadable hattr hne hread with he | ⟨e, he, hvalue⟩
    · rw [he]
      rfl
    · rw [he]
      exact hvalue

end Records

section Texts

/-- Characters a search prints as they are. -/
def Printable (cs : List Char) : Prop := ∀ c ∈ cs, 32 ≤ c.toNat ∧ c.toNat ≤ 126

/-- A text is printable if a look at each character says so. -/
theorem printable_of_all {cs : List Char}
    (h : (cs.all fun c => decide (32 ≤ c.toNat) && decide (c.toNat ≤ 126)) = true) :
    Printable cs := by
  intro c hc
  simpa using List.all_eq_true.mp h c hc

/-- The byte of an ASCII character. -/
theorem utf8EncodeChar_ascii {c : Char} (h : c.toNat < 128) :
    String.utf8EncodeChar c = [UInt8.ofNat c.toNat] := by
  have hall : ∀ n < 128, String.utf8EncodeChar (Char.ofNat n) = [UInt8.ofNat n] := by decide
  have hc := hall c.toNat h
  rwa [Char.ofNat_toNat] at hc

/-- The bytes of ASCII text. -/
theorem bytesOf_ascii {text : String} (h : ∀ c ∈ text.toList, c.toNat < 128) :
    bytesOf text = text.toList.map fun c => UInt8.ofNat c.toNat := by
  unfold bytesOf
  rw [List.map_eq_flatMap]
  exact List.flatMap_congr fun c hc => utf8EncodeChar_ascii (h c hc)

/-- The number of a byte's character. -/
theorem toNat_asciiChar {b : UInt8} (h : b.toNat < 128) : (Char.ofNat b.toNat).toNat = b.toNat := by
  have hall : ∀ n < 128, (Char.ofNat n).toNat = n := by decide
  exact hall b.toNat h

/-- The characters of a safe text can be printed. -/
theorem printable_of_isSafe {text : String} (h : isSafe (bytesOf text) = true) :
    Printable text.toList := by
  have htext := shown_bytesOf h
  unfold shown at htext
  rw [if_pos h] at htext
  intro c hc
  rw [← htext, String.toList_ofList] at hc
  obtain ⟨b, hb, rfl⟩ := List.mem_map.mp hc
  simp only [isSafe, Bool.and_eq_true, List.all_eq_true, decide_eq_true_eq] at h
  have hrange := h.1.1 b hb
  have hlow : 32 ≤ b.toNat := UInt8.le_iff_toNat_le.mp hrange.1
  have hhigh : b.toNat ≤ 126 := UInt8.le_iff_toNat_le.mp hrange.2
  rw [toNat_asciiChar (by omega)]
  exact ⟨hlow, hhigh⟩

/-- Text of printable characters is safe, unless it begins with a blank or a colon. -/
theorem isSafe_of_printable {text : String} (h : Printable text.toList)
    (hblank : text.toList.head? ≠ some ' ') (hcolon : text.toList.head? ≠ some ':') :
    isSafe (bytesOf text) = true := by
  have hbyte : ∀ c ∈ text.toList, (UInt8.ofNat c.toNat).toNat = c.toNat := by
    intro c hc
    have hc := h c hc
    rw [UInt8.toNat_ofNat']
    omega
  have hhead : ∀ d : Char, d.toNat < 128 → text.toList.head? ≠ some d →
      (text.toList.map fun c => UInt8.ofNat c.toNat).head? ≠ some (UInt8.ofNat d.toNat) := by
    intro d hd hne heq
    cases hlist : text.toList with
    | nil =>
      rw [hlist] at heq
      cases heq
    | cons c rest =>
      rw [hlist] at heq
      have hc : c ∈ text.toList := by rw [hlist]; exact List.mem_cons_self
      have hnat := congrArg UInt8.toNat (Option.some.inj heq)
      rw [hbyte c hc, UInt8.toNat_ofNat', Nat.mod_eq_of_lt (by omega)] at hnat
      refine hne ?_
      rw [hlist, List.head?_cons, Char.toNat_inj.mp hnat]
  rw [bytesOf_ascii fun c hc => by have := h c hc; omega]
  simp only [isSafe, Bool.and_eq_true, List.all_eq_true, decide_eq_true_eq]
  refine ⟨⟨?_, hhead ' ' (by decide) hblank⟩, hhead ':' (by decide) hcolon⟩
  intro b hb
  obtain ⟨c, hc, rfl⟩ := List.mem_map.mp hb
  have hrange := h c hc
  have hb := hbyte c hc
  exact ⟨UInt8.le_iff_toNat_le.mpr (by rw [hb]; exact hrange.1),
    UInt8.le_iff_toNat_le.mpr (by rw [hb]; exact hrange.2)⟩

/-- What a descriptor begins with. -/
theorem print_head (d : Descriptor) : d.print.head? ≠ some ' ' ∧ d.print.head? ≠ some ':' := by
  obtain ⟨owner, group, dacl, sacl⟩ := d
  cases owner with
  | some o => simp [Descriptor.print, part]
  | none =>
    cases group with
    | some g => simp [Descriptor.print, part]
    | none =>
      cases dacl with
      | some acl => simp [Descriptor.print, part]
      | none =>
        cases sacl with
        | some acl => simp [Descriptor.print, part]
        | none => simp [Descriptor.print, part]

/-- A descriptor is safe to print if its characters can be printed. -/
theorem isSafe_print (d : Descriptor) :
    isSafe (bytesOf (String.ofList d.print)) = true ↔ Printable d.print := by
  constructor
  · intro h
    have hprint := printable_of_isSafe h
    rwa [String.toList_ofList] at hprint
  · intro h
    have hhead := print_head d
    exact isSafe_of_printable (by rwa [String.toList_ofList]) (by rw [String.toList_ofList]; exact hhead.1)
      (by rw [String.toList_ofList]; exact hhead.2)

/-- A list of entries with one more can be printed exactly if the list can. -/
theorem printable_prepend (d : Descriptor) {a : Ace} (ha : Printable a.text) :
    Printable (d.prepend a).print ↔ Printable d.print := by
  have happ : ∀ x y : List Char, Printable (x ++ y) ↔ Printable x ∧ Printable y := by
    intro x y
    unfold Printable
    rw [List.forall_mem_append]
  have hmark : Printable ['D', ':'] := by simp [Printable]
  have hcons : ∀ x : List Char, Printable ('D' :: ':' :: x) ↔ Printable x := by
    intro x
    have h := happ ['D', ':'] x
    rw [List.cons_append, List.cons_append, List.nil_append] at h
    rw [h]
    exact and_iff_right hmark
  obtain ⟨owner, group, dacl, sacl⟩ := d
  cases dacl with
  | none =>
    simp only [Descriptor.print, Descriptor.prepend, part, Acl.print, Option.elim, happ, hcons,
      List.flatMap_cons, List.flatMap_nil, List.append_nil, ha, and_true]
    simp [Printable]
  | some acl =>
    simp only [Descriptor.print, Descriptor.prepend, part, Acl.print, Option.elim, happ, hcons,
      List.flatMap_cons, ha, true_and]

end Texts

section Escaped

/-- What an escaped value is made of. -/
theorem escaped_chars (value : List UInt8) :
    ∀ c ∈ (escaped value).toList, c = '\\' ∨ c.isAlphanum = true := by
  have hdigit : ∀ n < 16, (Nat.digitChar n).isAlphanum = true := by decide
  intro c hc
  unfold escaped at hc
  rw [String.toList_ofList] at hc
  obtain ⟨b, _, hb⟩ := List.mem_flatMap.mp hc
  have hlt : b.toNat < 256 := UInt8.toNat_lt b
  simp only [hexOf, List.flatMap_cons, List.flatMap_nil, List.append_nil, List.mem_cons,
    List.not_mem_nil, or_false] at hb
  rcases hb with rfl | rfl | rfl
  · exact Or.inl rfl
  · exact Or.inr (hdigit _ (by omega))
  · exact Or.inr (hdigit _ (by omega))

/-- No object has an escaped name. -/
theorem escaped_ne_dn (value : List UInt8) (dn : Dn) : escaped value ≠ dn.1 := by
  intro heq
  have hmem := dn.2
  rw [← heq] at hmem
  rcases escaped_chars value '=' hmem with h | h
  · revert h
    decide
  · revert h
    decide

/-- A name is read as itself, or as that of no object. -/
theorem shown_dn {dn dn' : Dn} (h : shown (bytesOf dn.1) = dn'.1) :
    isSafe (bytesOf dn.1) = true ∧ dn' = dn := by
  by_cases hsafe : isSafe (bytesOf dn.1) = true
  · rw [shown_bytesOf hsafe] at h
    exact ⟨hsafe, Subtype.ext h.symm⟩
  · unfold shown at h
    rw [if_neg hsafe] at h
    exact absurd h (escaped_ne_dn _ _)

/-- No list of entries begins in an escaped value. -/
theorem insertAt_escaped (ace : List Char) (value : List UInt8) :
    insertAt ace (escaped value).toList = none := by
  have hlist : ∀ cs : List Char, (∀ c ∈ cs, c ≠ ':') → insertAt ace cs = none := by
    intro cs
    induction cs with
    | nil =>
      intro _
      rfl
    | cons c cs ih =>
      intro h
      obtain ⟨_, hrest⟩ := List.forall_mem_cons.mp h
      have hnext : cs.head? ≠ some ':' := fun heq => hrest _ (List.mem_of_mem_head? heq) rfl
      rw [insertAt_cons (Or.inr hnext), ih hrest]
      rfl
  refine hlist _ ?_
  rintro c hc rfl
  rcases escaped_chars value ':' hc with h | h
  · revert h
    decide
  · revert h
    decide

variable [UnicodeTables]

/-- Lowercasing goes on behind a text. -/
theorem lowercaseFrom_append (before x y : List Char) :
    ∃ out, lowercaseFrom before (x ++ y) = out ++ lowercaseFrom (x.reverse ++ before) y := by
  induction x generalizing before with
  | nil => exact ⟨[], rfl⟩
  | cons c x ih =>
    obtain ⟨out, hout⟩ := ih (c :: before)
    have hrev : (c :: x).reverse ++ before = x.reverse ++ c :: before := by simp
    rw [List.cons_append, lowercaseFrom, hout, hrev, ← List.append_assoc]
    exact ⟨_, rfl⟩

variable (hascii : ∀ c : Char, c.toNat < 128 → UnicodeTables.toLowercase c = [c.toLower])
include hascii

/-- ASCII text is lowercased letter by letter, whatever stands around it. -/
theorem lowercaseFrom_ascii {x : List Char} (hx : ∀ c ∈ x, c.toNat < 128) (before y : List Char) :
    lowercaseFrom before (x ++ y) = x.map Char.toLower ++ lowercaseFrom (x.reverse ++ before) y := by
  induction x generalizing before with
  | nil => rfl
  | cons c x ih =>
    obtain ⟨hc, hrest⟩ := List.forall_mem_cons.mp hx
    have hsigma : c ≠ 'Σ' := by
      rintro rfl
      revert hc
      decide
    rw [List.cons_append, lowercaseFrom, ih hrest, if_neg hsigma, hascii c hc]
    simp

/-- ASCII text lowercased. -/
theorem toLowercase_ascii {s : String} (hs : ∀ c ∈ s.toList, c.toNat < 128) :
    (toLowercase s).toList = s.toList.map Char.toLower := by
  have h := lowercaseFrom_ascii hascii hs [] []
  rw [List.append_nil] at h
  unfold toLowercase
  rw [String.toList_ofList, h]
  simp [lowercaseFrom]

/-- A text in which an entry stands, in any case, is judged to hold it. -/
theorem containsAce_of_same {a own : Ace} (hown : own.Same a) (ha : Printable a.text)
    (pre post : List Char) :
    containsAce (String.ofList (pre ++ own.text ++ post)) (String.ofList a.text) = true := by
  have hafrom : ∀ c ∈ a.text, c.toNat < 128 := by
    intro c hc
    have hrange := ha c hc
    omega
  have hlower : ∀ c : Char, c.toLower.toNat < 128 → c.toNat < 128 := by
    intro c hc
    by_contra hno
    have hupper : ¬ (c.val ≥ 'A'.val ∧ c.val ≤ 'Z'.val) := by
      rintro ⟨_, hle⟩
      have hnat : c.toNat ≤ 90 := hle
      omega
    rw [Char.toLower, dif_neg hupper] at hc
    exact hno hc
  have hownfrom : ∀ c ∈ own.text, c.toNat < 128 := by
    intro c hc
    have hmem : c.toLower ∈ a.text.map Char.toLower := by
      rw [← hown]
      exact List.mem_map_of_mem hc
    obtain ⟨d, hd, hdc⟩ := List.mem_map.mp hmem
    refine hlower c ?_
    rw [← hdc]
    have hall : ∀ n < 128, (Char.ofNat n).toLower.toNat < 128 := by decide
    have hd' := hall d.toNat (hafrom d hd)
    rwa [Char.ofNat_toNat] at hd'
  unfold containsAce
  rw [decide_eq_true_eq, toLowercase_ascii hascii (by rwa [String.toList_ofList]),
    String.toList_ofList]
  unfold toLowercase
  rw [String.toList_ofList, String.toList_ofList, List.append_assoc]
  obtain ⟨out, hout⟩ := lowercaseFrom_append [] pre (own.text ++ post)
  rw [hout, lowercaseFrom_ascii hascii hownfrom, hown, ← List.append_assoc]
  exact ⟨_, _, rfl⟩

/-- No entry is judged to stand in an escaped value. -/
theorem containsAce_escaped (a : Ace) (ha : Printable a.text) (value : List UInt8) :
    containsAce (escaped value) (String.ofList a.text) = false := by
  have hafrom : ∀ c ∈ (String.ofList a.text).toList, c.toNat < 128 := by
    rw [String.toList_ofList]
    intro c hc
    have hrange := ha c hc
    omega
  have halnum : ∀ n < 128, (Char.ofNat n).isAlphanum = true → (Char.ofNat n).toLower ≠ '(' := by
    decide
  have hchars := escaped_chars value
  have hfrom : ∀ c ∈ (escaped value).toList, c.toNat < 128 ∧ c.toLower ≠ '(' := by
    intro c hc
    rcases hchars c hc with rfl | halpha
    · decide
    · have hlt : c.toNat < 128 := by
        have hall := halpha
        simp only [Char.isAlphanum, Char.isAlpha, Char.isUpper, Char.isLower, Char.isDigit,
          Bool.or_eq_true, Bool.and_eq_true, decide_eq_true_eq] at hall
        rcases hall with (⟨_, hle⟩ | ⟨_, hle⟩) | ⟨_, hle⟩
        · have hnat : c.toNat ≤ 90 := hle
          omega
        · have hnat : c.toNat ≤ 122 := hle
          omega
        · have hnat : c.toNat ≤ 57 := hle
          omega
      have hne := halnum c.toNat hlt
      rw [Char.ofNat_toNat] at hne
      exact ⟨hlt, hne halpha⟩
  unfold containsAce
  rw [decide_eq_false_iff_not, toLowercase_ascii hascii hafrom,
    toLowercase_ascii hascii fun c hc => (hfrom c hc).1, String.toList_ofList]
  intro hwithin
  have hparen : '(' ∈ a.text.map Char.toLower :=
    List.mem_map.mpr ⟨'(', List.mem_of_mem_head? a.opened, by decide⟩
  obtain ⟨c, hc, heq⟩ := List.mem_map.mp (hwithin.subset hparen)
  exact (hfrom c hc).2 heq

end Escaped

end Kerbridge.Setup

import Kerbridge.DeviceGrant
import Kerbridge.LdifReader
import Mathlib.Data.List.Forall2

/-!
# Reading what a directory search prints

A line is read as it was printed unless its value, printed plain, has the separator
of base64 before its first fold. Then it is taken for base64 under another name.
-/

namespace Kerbridge.Ldif

open UnicodeText LossyText

section Reads

/-- What a line is read as. -/
def Line.read (l : Line) : Option (String × String) := l.pending.value

/-- What a record is read as. -/
def Record.read (r : Record) : Entry := (r.all.map Line.read).foldl pushRead []

/-- The entry of a record, if its name was read. -/
def Record.entry (r : Record) : Option Entry :=
  if (r.read.lookup "dn").isSome then some r.read else none

/-- The issuer holds bytes as text, losing what is none. -/
theorem Pending.value_eq (p : Pending) : p.value = p.valueBy fromUtf8Lossy := by
  obtain ⟨attr, text, coded⟩ := p
  cases coded with
  | false => rfl
  | true => rfl

/-- Finishing an attribute, over the way bytes are held. -/
theorem flush_eq_flushBy (current : Entry) (pending : Option Pending) :
    flush current pending = flushBy fromUtf8Lossy current pending := by
  have hvalue : Pending.value = Pending.valueBy fromUtf8Lossy := funext Pending.value_eq
  unfold flush
  rw [hvalue]
  rfl

/-- The issuer's reader, over the way bytes are held. -/
theorem ldifEntries_eq (text : List Char) : ldifEntries text = entriesBy fromUtf8Lossy text := by
  have hline : readLine = readLineBy fromUtf8Lossy := by
    funext s line
    unfold readLine
    rw [flush_eq_flushBy]
    rfl
  unfold ldifEntries entriesBy
  rw [hline]

/-- A line, over the way bytes are held. -/
theorem Line.read_eq (l : Line) : l.read = l.readBy fromUtf8Lossy := Pending.value_eq l.pending

/-- A record, over the way bytes are held. -/
theorem Record.read_eq (r : Record) : r.read = r.readBy fromUtf8Lossy := by
  unfold Record.read Record.readBy
  rw [funext Line.read_eq]

/-- What is read of a document: the entries of its records. -/
theorem ldifEntries_print (d : Document) :
    ldifEntries d.print = d.records.filterMap Record.entry := by
  have hentry : Record.entry = Record.entryBy fromUtf8Lossy := by
    funext r
    unfold Record.entry Record.entryBy
    rw [Record.read_eq]
  rw [ldifEntries_eq, entriesBy_print, hentry]

end Reads

section Documents

/-- Plain bytes are read as their characters. -/
theorem ofList_asciiChars {bytes : List UInt8} (h : isPlain bytes = true) :
    String.ofList (asciiChars bytes) = fromUtf8Lossy bytes := by
  have hbytes : bytesOf (String.ofList (asciiChars bytes)) = bytes := by
    unfold bytesOf asciiChars
    rw [String.toList_ofList]
    rw [isPlain_iff] at h
    induction bytes with
    | nil => rfl
    | cons b bytes ih =>
      obtain ⟨hb, hrest⟩ := List.forall_mem_cons.mp h
      rw [List.map_cons, List.flatMap_cons, (asciiChar hb.1).1, ih hrest]
      rfl
  rw [← fromUtf8Lossy_bytesOf (String.ofList (asciiChars bytes)), hbytes]

/-- A line without the separator of base64 is read as it was printed. -/
theorem Line.read_clear {l : Line} (h : l.Clear) :
    l.read = some (String.ofList l.attr, fromUtf8Lossy l.value) := by
  rw [Line.read_eq, Line.readBy_clear _ h]
  unfold Line.shownBy
  cases hplain : l.plain with
  | false => rfl
  | true => rw [if_pos rfl, ofList_asciiChars (l.safe hplain)]

/-- The values read of an attribute are those of its lines that are read as printed. -/
theorem Record.read_values (r : Record) {attr : String}
    (hattr : ∀ l ∈ r.all, ¬ l.Clear → ':' ∉ attr.toList) :
    r.read.values attr =
      ((r.all.filter fun l => String.ofList l.attr = attr).filter fun l => decide l.Clear).map
        fun l => fromUtf8Lossy l.value := by
  rw [Record.read_eq, Record.readBy_values _ r hattr]
  refine List.map_congr_left ?_
  intro l _
  unfold Line.shownBy
  cases hplain : l.plain with
  | false => rfl
  | true => rw [if_pos rfl, ofList_asciiChars (l.safe hplain)]

/-- A record whose lines are read as printed is read as its values. -/
theorem Record.values_of_clear {r : Record} (h : ∀ l ∈ r.all, l.Clear) (attr : String) :
    r.read.values attr = r.values attr := by
  rw [Record.read_values r fun l hl hno => absurd (h l hl) hno, Record.values]
  congr 1
  refine List.filter_eq_self.mpr ?_
  intro l hl
  simpa using h l (List.mem_filter.mp hl).1

/-- A record whose lines are read as printed has an entry. -/
theorem Record.entry_of_clear {r : Record} (h : ∀ l ∈ r.all, l.Clear) :
    r.entry = some r.read := by
  unfold Record.entry
  rw [if_pos]
  unfold Record.read
  rw [isSome_lookup_foldl]
  refine Or.inr ⟨(String.ofList r.dn.attr, fromUtf8Lossy r.dn.value), ?_, ?_⟩
  · have hdn : r.dn.read ∈ r.all.map Line.read :=
      List.mem_map_of_mem List.mem_cons_self
    rw [Line.read_clear (h r.dn List.mem_cons_self)] at hdn
    exact List.mem_filterMap.mpr ⟨_, hdn, rfl⟩
  · rw [r.named, String.ofList_toList]

/-- A record that is read as its values has only lines that are read as printed. -/
theorem Record.clear_of_values {r : Record} (h : ∀ attr, r.read.values attr = r.values attr) :
    ∀ l ∈ r.all, l.Clear := by
  intro l hl
  have hlength := congrArg List.length (h (String.ofList l.attr))
  rw [Record.read_values r fun _ _ _ => l.name_colon, Record.values, List.length_map,
    List.length_map, List.length_filter_eq_length_iff] at hlength
  have hclear := hlength l (List.mem_filter.mpr ⟨hl, by simp⟩)
  simpa using hclear

/-- What is read of a document is what was printed exactly if every line is read as printed. -/
theorem Document.read_iff (doc : Document) :
    List.Forall₂ (fun entry record => ∀ attr, Entry.values entry attr = Record.values record attr)
        (ldifEntries doc.print) doc.records ↔
      ∀ r ∈ doc.records, ∀ l ∈ r.all, l.Clear := by
  rw [ldifEntries_print]
  constructor
  · intro h
    have hsome := List.filterMap_length_eq_length.mp h.length_eq
    have hmap : doc.records.filterMap Record.entry = doc.records.map Record.read := by
      rw [← List.filterMap_eq_map]
      refine List.filterMap_congr ?_
      intro r hr
      have hentry := hsome r hr
      unfold Record.entry at hentry ⊢
      split at hentry
      · rename_i hdn
        rw [if_pos hdn]
        rfl
      · cases hentry
    rw [hmap, List.forall₂_map_left_iff, List.forall₂_same] at h
    intro r hr
    exact Record.clear_of_values (h r hr)
  · intro h
    have hmap : doc.records.filterMap Record.entry = doc.records.map Record.read := by
      rw [← List.filterMap_eq_map]
      refine List.filterMap_congr ?_
      intro r hr
      exact Record.entry_of_clear (h r hr)
    rw [hmap, List.forall₂_map_left_iff, List.forall₂_same]
    intro r hr
    exact Record.values_of_clear (h r hr)

end Documents

/-- A search is read back value by value exactly if no value printed plain has the
separator of base64 before its first fold. A value that is text is read as that text. -/
theorem ldif_reading (doc : Document) :
    (List.Forall₂ (fun entry record => ∀ attr, Entry.values entry attr = Record.values record attr)
        (ldifEntries doc.print) doc.records ↔
      ∀ r ∈ doc.records, ∀ l ∈ r.all, l.Clear) ∧
    ∀ text : String, fromUtf8Lossy (bytesOf text) = text :=
  ⟨doc.read_iff, fromUtf8Lossy_bytesOf⟩

section Sample

/-- The stored text of a grant whose label has the separator of base64 in it. -/
def sampleGrant : DeviceGrants.DeviceGrant :=
  ⟨"laptop:: mine", .es256, "AAAAAAAAAAAAAAAAAAAAAAAAAAAAAAAAAAAAAAAAAAA", 1, 2, none⟩

/-- The line of the account's name. -/
def sampleName : Line where
  attr := "dn".toList
  value := bytesOf "CN=anna"
  plain := true
  head := "CN=anna".toList
  folds := []
  named := by decide
  safe := by decide
  folded := by decide

/-- The line of the grant, printed plain and without a fold. -/
def sampleLine : Line where
  attr := "extensionName".toList
  value := bytesOf sampleGrant.encode
  plain := true
  head := sampleGrant.encode.toList
  folds := []
  named := by decide
  safe := by decide
  folded := by decide

/-- An account with a grant, as a search prints it. -/
def sampleDocument : Document where
  blocks := [.record {
    dn := sampleName
    lines := [sampleLine]
    named := rfl
    others := by decide }]
  last := none

/-- The grant is not among the values that are read. -/
theorem grant_hidden :
    ¬ List.Forall₂
        (fun entry record => ∀ attr, Entry.values entry attr = Record.values record attr)
        (ldifEntries sampleDocument.print) sampleDocument.records := by
  intro h
  have hclear := sampleDocument.read_iff.mp h _ List.mem_cons_self sampleLine
    (List.mem_cons_of_mem _ List.mem_cons_self)
  revert hclear
  decide

end Sample

end Kerbridge.Ldif

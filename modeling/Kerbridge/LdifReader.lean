import Kerbridge.Ldif

/-!
# Reading printed records

The reader of a directory search, over the way the bytes of a value in base64 are held.
A record is read line by line: a line as it was printed, unless its value, printed plain,
has the separator of base64 before its first fold.
-/

namespace Kerbridge.Ldif

open UnicodeText LossyText

variable (shown : List UInt8 → String)

section Reader

/-- What the attribute being read amounts to, unless it cannot be decoded. -/
def Pending.valueBy : Pending → Option (String × String)
  | (attr, text, true) => (Base64.decode text).map fun raw => (String.ofList attr, shown raw)
  | (attr, text, false) => some (String.ofList attr, String.ofList text)

/-- The attribute being read is done with. -/
def flushBy (current : Entry) (pending : Option Pending) : Entry :=
  match pending.bind (Pending.valueBy shown) with
  | some (attr, value) => current.push attr value
  | none => current

/-- One line. -/
def readLineBy (s : State) (line : List Char) : State :=
  match line with
  | ' ' :: rest =>
    { s with pending := s.pending.map fun (attr, text, coded) => (attr, text ++ rest, coded) }
  | _ =>
    let current := flushBy shown s.current s.pending
    if line = [] ∨ line.head? = some '#' then
      if line = [] ∧ (current.lookup "dn").isSome then ⟨s.entries ++ [current], [], none⟩
      else ⟨s.entries, [], none⟩
    else
      match cutAt ":: ".toList line with
      | some (attr, text) => ⟨s.entries, current, some (attr, text, true)⟩
      | none =>
        match cutAt ": ".toList line with
        | some (attr, text) => ⟨s.entries, current, some (attr, text, false)⟩
        | none => ⟨s.entries, current, none⟩

/-- The entries of a text that carry a name. -/
def entriesBy (text : List Char) : List Entry :=
  ((lines text ++ [[]]).foldl (readLineBy shown) ⟨[], [], none⟩).entries

end Reader

section Cutting

/-- What stands before the first occurrence of a pattern begins the text. -/
theorem cutAt_prefix {pattern text before after : List Char}
    (h : cutAt pattern text = some (before, after)) : before <+: text := by
  induction text generalizing before with
  | nil =>
    unfold cutAt at h
    split at h
    · cases h
      exact List.prefix_rfl
    · cases h
  | cons c text ih =>
    unfold cutAt at h
    split at h
    · cases h
      exact List.nil_prefix
    · obtain ⟨p, hp, heq⟩ := Option.map_eq_some_iff.mp h
      cases heq
      exact List.cons_prefix_cons.mpr ⟨rfl, ih hp⟩

/-- A character that does not begin the pattern is passed over. -/
theorem cutAt_cons {first c : Char} {pattern text : List Char} (h : first ≠ c) :
    cutAt (first :: pattern) (c :: text) =
      (cutAt (first :: pattern) text).map fun p => (c :: p.1, p.2) := by
  have hno : (first :: pattern).isPrefixOf (c :: text) = false := by
    simp [List.isPrefixOf, h]
  rw [cutAt, hno]
  rfl

/-- Characters that do not begin the pattern are passed over. -/
theorem cutAt_append {first : Char} {pattern text rest : List Char} (h : first ∉ text) :
    cutAt (first :: pattern) (text ++ rest) =
      (cutAt (first :: pattern) rest).map fun p => (text ++ p.1, p.2) := by
  induction text with
  | nil => simp
  | cons c text ih =>
    rw [List.mem_cons, not_or] at h
    rw [List.cons_append, cutAt_cons h.1, ih h.2, Option.map_map]
    rfl

/-- The pattern itself is cut at. -/
theorem cutAt_pattern (first : Char) (pattern rest : List Char) :
    cutAt (first :: pattern) (first :: pattern ++ rest) = some ([], rest) := by
  have hyes : (first :: pattern).isPrefixOf (first :: pattern ++ rest) = true := by
    rw [List.isPrefixOf_iff_prefix]
    exact List.prefix_append _ _
  rw [List.cons_append, cutAt, ← List.cons_append, if_pos hyes, List.drop_left]

end Cutting

section Entries

/-- An attribute is looked up in the first pair, or behind it. -/
theorem lookup_first (name : String) (p : String × List String) (e : Entry) :
    List.lookup name (p :: e) = if name = p.1 then some p.2 else List.lookup name e := by
  obtain ⟨attr, values⟩ := p
  rw [List.lookup_cons]
  by_cases h : name = attr
  · simp [h]
  · have hb : (name == attr) = false := beq_eq_false_iff_ne.mpr h
    simp [hb, h]

/-- The values of an attribute once another value has been read. -/
theorem lookup_push (e : Entry) (attr value name : String) :
    (e.push attr value).lookup name =
      if name = attr then some (e.values attr ++ [value]) else e.lookup name := by
  induction e with
  | nil =>
    rw [Entry.push, lookup_first]
    rfl
  | cons p e ih =>
    have hvalues : Entry.values (p :: e) attr =
        if attr = p.1 then p.2 else Entry.values e attr := by
      unfold Entry.values
      rw [lookup_first]
      split
      · rfl
      · rfl
    rw [Entry.push, hvalues, lookup_first]
    by_cases hp : p.1 = attr
    · rw [if_pos hp, if_pos hp.symm, lookup_first]
      by_cases h : name = attr
      · simp [h]
      · have hp' : ¬ name = p.1 := by rw [hp]; exact h
        simp [h, hp']
    · have hp' : ¬ attr = p.1 := fun heq => hp heq.symm
      rw [if_neg hp, if_neg hp', lookup_first, ih]
      by_cases h : name = attr
      · simp [h, hp']
      · simp [h]

/-- What has been read with one more line. -/
def pushRead (e : Entry) : Option (String × String) → Entry
  | some (attr, value) => e.push attr value
  | none => e

/-- The values of an attribute once more lines have been read. -/
theorem values_foldl (reads : List (Option (String × String))) (e : Entry) (name : String) :
    (reads.foldl pushRead e).values name =
      e.values name ++ ((reads.filterMap id).filter fun p => p.1 = name).map Prod.snd := by
  induction reads generalizing e with
  | nil => simp
  | cons read reads ih =>
    rw [List.foldl_cons, ih]
    cases read with
    | none => rfl
    | some p =>
      have hpush : (pushRead e (some p)).values name =
          if name = p.1 then e.values p.1 ++ [p.2] else e.values name := by
        unfold Entry.values
        rw [pushRead, lookup_push]
        split
        · rfl
        · rfl
      rw [hpush]
      by_cases h : name = p.1
      · simp [h]
      · have h' : ¬ p.1 = name := fun heq => h heq.symm
        simp [h, h']

/-- An attribute is there once a line of its name has been read. -/
theorem isSome_lookup_foldl (reads : List (Option (String × String))) (e : Entry)
    (name : String) :
    ((reads.foldl pushRead e).lookup name).isSome = true ↔
      (e.lookup name).isSome = true ∨ ∃ p ∈ reads.filterMap id, p.1 = name := by
  induction reads generalizing e with
  | nil => simp
  | cons read reads ih =>
    rw [List.foldl_cons, ih]
    cases read with
    | none => rfl
    | some p =>
      rw [pushRead, lookup_push]
      by_cases h : name = p.1
      · simp [h]
      · have h' : ¬ p.1 = name := fun heq => h heq.symm
        simp [h, h']

end Entries

section Lines

/-- What the reader holds of an attribute once its line has been printed to it. -/
def Line.pending (l : Line) : Pending :=
  if l.plain then
    match cutAt ":: ".toList l.head with
    | some (before, after) => (l.attr ++ [':', ' '] ++ before, after ++ l.folds.flatten, true)
    | none => (l.attr, asciiChars l.value, false)
  else (l.attr, Base64.encode l.value, true)

/-- What a line is read as. -/
def Line.readBy (l : Line) : Option (String × String) := l.pending.valueBy shown

/-- A line that is read as it was printed: no separator of base64 stands in its value
before the first fold, when the value is printed plain. -/
def Line.Clear (l : Line) : Prop := l.plain = true → cutAt ":: ".toList l.head = none

instance (l : Line) : Decidable l.Clear :=
  inferInstanceAs (Decidable (l.plain = true → cutAt ":: ".toList l.head = none))

/-- The name of a line holds none of the characters that mean something to the reader. -/
theorem Line.attr_plain (l : Line) : l.attr ≠ [] ∧
    ∀ c ∈ l.attr, c ≠ ':' ∧ c ≠ ' ' ∧ c ≠ '#' ∧ c ≠ '\n' ∧ c ≠ '\r' := by
  have h := l.named
  simp only [isAttribute, Bool.and_eq_true, List.isEmpty_eq_false_iff, List.all_eq_true, ne_eq,
    decide_not, Bool.not_eq_eq_eq_not, Bool.not_true, decide_eq_false_iff_not] at h
  refine ⟨h.1, ?_⟩
  intro c hc
  have hc' := h.2 c hc
  exact ⟨hc'.1.1.1.1, hc'.1.1.1.2, hc'.1.1.2, hc'.1.2, hc'.2⟩

/-- The first line a value is printed on is cut at its separator, or at the separator of
base64 in its value. -/
theorem Line.cut (l : Line) :
    (match cutAt ":: ".toList (l.attr ++ l.separator ++ l.head) with
      | some (attr, text) => some (attr, text, true)
      | none =>
        match cutAt ": ".toList (l.attr ++ l.separator ++ l.head) with
        | some (attr, text) => some (attr, text, false)
        | none => none) =
      some (if l.plain then
        match cutAt ":: ".toList l.head with
        | some (before, after) => (l.attr ++ [':', ' '] ++ before, after, true)
        | none => (l.attr, l.head, false)
      else (l.attr, l.head, true)) := by
  have hcolon : ':' ∉ l.attr := fun h => (l.attr_plain.2 ':' h).1 rfl
  unfold Line.separator
  cases l.plain with
  | false =>
    have hcut : cutAt [':', ':', ' '] (l.attr ++ ([':', ':', ' '] ++ l.head)) =
        some (l.attr, l.head) := by
      rw [cutAt_append hcolon, cutAt_pattern]
      simp
    have htext : l.attr ++ [':', ':', ' '] ++ l.head = l.attr ++ ([':', ':', ' '] ++ l.head) := by
      simp
    change (match cutAt [':', ':', ' '] (l.attr ++ [':', ':', ' '] ++ l.head) with
      | some (attr, text) => some (attr, text, true)
      | none => _) = some (l.attr, l.head, true)
    rw [htext, hcut]
  | true =>
    have htext : l.attr ++ [':', ' '] ++ l.head = l.attr ++ ([':', ' '] ++ l.head) := by simp
    have hcut : cutAt [':', ' '] (l.attr ++ ([':', ' '] ++ l.head)) = some (l.attr, l.head) := by
      rw [cutAt_append hcolon, cutAt_pattern]
      simp
    have hcoded : cutAt [':', ':', ' '] (l.attr ++ ([':', ' '] ++ l.head)) =
        (cutAt [':', ':', ' '] l.head).map fun p => (l.attr ++ [':', ' '] ++ p.1, p.2) := by
      have hsep : cutAt [':', ':', ' '] ([':', ' '] ++ l.head) =
          (cutAt [':', ':', ' '] l.head).map fun p => ([':', ' '] ++ p.1, p.2) := by
        have hno : [':', ':', ' '].isPrefixOf (':' :: ' ' :: l.head) = false := by
          simp [List.isPrefixOf]
        rw [List.cons_append, List.cons_append, List.nil_append, cutAt, hno,
          cutAt_cons (by decide), Option.map_map]
        rfl
      rw [cutAt_append hcolon, hsep, Option.map_map]
      congr 1
      funext p
      simp
    change (match cutAt [':', ':', ' '] (l.attr ++ [':', ' '] ++ l.head) with
      | some (attr, text) => some (attr, text, true)
      | none =>
        match cutAt [':', ' '] (l.attr ++ [':', ' '] ++ l.head) with
        | some (attr, text) => some (attr, text, false)
        | none => none) = some (match cutAt [':', ':', ' '] l.head with
        | some (before, after) => (l.attr ++ [':', ' '] ++ before, after, true)
        | none => (l.attr, l.head, false))
    rw [htext, hcut, hcoded]
    cases cutAt [':', ':', ' '] l.head with
    | none => rfl
    | some p => rfl

/-- Reading a line that starts with an attribute. -/
theorem readLine_attribute {s : State} {line : List Char} {p : Pending}
    (hne : line ≠ []) (hblank : line.head? ≠ some ' ') (hcomment : line.head? ≠ some '#')
    (hcut : (match cutAt ":: ".toList line with
      | some (attr, text) => some (attr, text, true)
      | none =>
        match cutAt ": ".toList line with
        | some (attr, text) => some (attr, text, false)
        | none => none) = some p) :
    (readLineBy shown) s line = ⟨s.entries, flushBy shown s.current s.pending, some p⟩ := by
  cases line with
  | nil => exact absurd rfl hne
  | cons c rest =>
    have hc : c ≠ ' ' := fun h => hblank (by rw [h]; rfl)
    have hc' : ¬ ((c :: rest) = [] ∨ (c :: rest).head? = some '#') := by
      rintro (h | h)
      · cases h
      · exact hcomment h
    unfold readLineBy
    split
    · rename_i heq
      cases heq
      exact absurd rfl hc
    · dsimp only
      rw [if_neg hc']
      cases h : cutAt ":: ".toList (c :: rest) with
      | some q =>
        rw [h] at hcut
        cases hcut
        rfl
      | none =>
        rw [h] at hcut
        dsimp only at hcut ⊢
        cases h' : cutAt ": ".toList (c :: rest) with
        | some q =>
          rw [h'] at hcut
          cases hcut
          rfl
        | none =>
          rw [h'] at hcut
          cases hcut

/-- Continuation lines are appended to the attribute being read. -/
theorem foldl_folds (s : State) (attr text : List Char) (coded : Bool) (folds : List (List Char)) :
    (folds.map fun fold => ' ' :: fold).foldl (readLineBy shown) { s with pending := some (attr, text, coded) }
      = { s with pending := some (attr, text ++ folds.flatten, coded) } := by
  induction folds generalizing text with
  | nil => simp
  | cons fold folds ih =>
    rw [List.map_cons, List.foldl_cons]
    change List.foldl (readLineBy shown) { s with pending := some (attr, text ++ fold, coded) } _ = _
    rw [ih, List.flatten_cons, List.append_assoc]

/-- Once a line has been read, its attribute is being read and the one before is done with. -/
theorem foldl_line (s : State) (l : Line) :
    l.print.foldl (readLineBy shown) s = ⟨s.entries, flushBy shown s.current s.pending, some l.pending⟩ := by
  obtain ⟨hne, hchars⟩ := l.attr_plain
  obtain ⟨c, attr, hattr⟩ := List.exists_cons_of_ne_nil hne
  have hc := hchars c (by rw [hattr]; exact List.mem_cons_self)
  have hhead : (l.attr ++ l.separator ++ l.head).head? = some c := by
    rw [hattr]
    rfl
  have hfirst := @readLine_attribute shown s (l.attr ++ l.separator ++ l.head) _
    (by rw [hattr]; simp) (by rw [hhead]; simpa using hc.2.1) (by rw [hhead]; simpa using hc.2.2.1)
    l.cut
  unfold Line.print
  rw [List.foldl_cons, hfirst]
  have hfolded := l.folded
  unfold Line.pending
  cases hplain : l.plain with
  | false =>
    rw [hplain] at hfolded
    simp only [Bool.false_eq_true, if_false] at hfolded ⊢
    rw [foldl_folds shown ⟨s.entries, flushBy shown s.current s.pending, none⟩, hfolded]
  | true =>
    rw [hplain] at hfolded
    simp only [if_true] at hfolded ⊢
    cases cutAt ":: ".toList l.head with
    | some p => exact foldl_folds shown ⟨s.entries, flushBy shown s.current s.pending, none⟩ _ _ _ _
    | none =>
      dsimp only
      rw [foldl_folds shown ⟨s.entries, flushBy shown s.current s.pending, none⟩, hfolded]

/-- What has been read once the attribute being read is done with. -/
theorem flush_eq (current : Entry) (p : Pending) :
    flushBy shown current (some p) = pushRead current (p.valueBy shown) := by
  have hbind : (some p).bind (Pending.valueBy shown) = (p.valueBy shown) := rfl
  unfold flushBy pushRead
  cases hread : (p.valueBy shown) with
  | none =>
    rw [hread] at hbind
    rw [hbind]
  | some q =>
    rw [hread] at hbind
    rw [hbind]

/-- The lines of a record are read one after the other. -/
theorem foldl_lines (lines : List Line) (s : State) :
    ((lines.flatMap Line.print).foldl (readLineBy shown) s).entries = s.entries ∧
      flushBy shown ((lines.flatMap Line.print).foldl (readLineBy shown) s).current
          ((lines.flatMap Line.print).foldl (readLineBy shown) s).pending =
        (lines.map (Line.readBy shown)).foldl pushRead (flushBy shown s.current s.pending) := by
  induction lines generalizing s with
  | nil => exact ⟨rfl, rfl⟩
  | cons l lines ih =>
    rw [List.flatMap_cons, List.foldl_append, foldl_line, List.map_cons, List.foldl_cons]
    have hrest := ih ⟨s.entries, flushBy shown s.current s.pending, some l.pending⟩
    rw [flush_eq] at hrest
    exact hrest

end Lines


section Text

/-- A line without a carriage return is left as it is. -/
theorem dropReturn_eq {line : List Char} (h : '\r' ∉ line) : dropReturn line = line := by
  unfold dropReturn
  rw [if_neg]
  exact fun hlast => h (List.mem_of_getLast? hlast)

/-- What a line starts with stays, unless it is a carriage return. -/
theorem dropReturn_cons {c : Char} (hc : c ≠ '\r') (rest : List Char) :
    dropReturn (c :: rest) = c :: dropReturn rest := by
  unfold dropReturn
  cases rest with
  | nil => simp [hc]
  | cons d rest =>
    rw [List.getLast?_cons_cons]
    split
    · rfl
    · rfl

/-- Lines that are printed are read back, without carriage returns at their ends. -/
theorem lines_print {ls : List (List Char)} (h : ∀ l ∈ ls, '\n' ∉ l) :
    lines (ls.flatMap fun line => line ++ ['\n']) = ls.map dropReturn := by
  have htext : (ls.flatMap fun line => line ++ ['\n']) = ['\n'].intercalate (ls ++ [[]]) := by
    induction ls with
    | nil => rfl
    | cons l ls ih =>
      rw [List.flatMap_cons, ih fun x hx => h x (List.mem_cons_of_mem _ hx), List.cons_append]
      cases ls with
      | nil => simp [List.intercalate]
      | cons x ls => simp [List.intercalate]
  have hfree : ∀ l ∈ ls ++ [[]], '\n' ∉ l := by
    intro l hl
    rcases List.mem_append.mp hl with hl | hl
    · exact h l hl
    · rw [List.mem_singleton.mp hl]
      simp
  unfold lines
  rw [htext, List.splitOn_intercalate '\n' hfree (by simp)]
  simp

/-- The character of an ASCII byte. -/
theorem asciiChar {b : UInt8} (h : b < 128) :
    String.utf8EncodeChar (Char.ofNat b.toNat) = [b] ∧
      (b ≠ 10 → Char.ofNat b.toNat ≠ '\n') ∧ (b ≠ 13 → Char.ofNat b.toNat ≠ '\r') := by
  have hall : ∀ n < 128, String.utf8EncodeChar (Char.ofNat n) = [UInt8.ofNat n] ∧
      (UInt8.ofNat n ≠ 10 → Char.ofNat n ≠ '\n') ∧
      (UInt8.ofNat n ≠ 13 → Char.ofNat n ≠ '\r') := by decide
  have hb := hall b.toNat (UInt8.lt_iff_toNat_lt.mp h)
  rwa [UInt8.ofNat_toNat] at hb

/-- What may be printed plain, byte by byte. -/
theorem isPlain_iff {bytes : List UInt8} :
    isPlain bytes = true ↔ ∀ b ∈ bytes, b < 128 ∧ b ≠ 10 ∧ b ≠ 13 := by
  simp [isPlain, and_assoc]

/-- A printed line holds no line end. -/
theorem Line.print_plain (l : Line) : ∀ line ∈ l.print, '\n' ∉ line ∧ '\r' ∉ line := by
  have hbody : ∀ c ∈ l.head ++ l.folds.flatten, c ≠ '\n' ∧ c ≠ '\r' := by
    rw [l.folded]
    cases hplain : l.plain with
    | true =>
      have hsafe := isPlain_iff.mp (l.safe hplain)
      intro c hc
      obtain ⟨b, hb, rfl⟩ := List.mem_map.mp hc
      obtain ⟨hlt, h10, h13⟩ := hsafe b hb
      exact ⟨(asciiChar hlt).2.1 h10, (asciiChar hlt).2.2 h13⟩
    | false =>
      intro c hc
      have hprint := Base64.encode_plain _ c hc
      constructor
      · rintro rfl
        revert hprint
        decide
      · rintro rfl
        revert hprint
        decide
  have hsep : ∀ c ∈ l.separator, c ≠ '\n' ∧ c ≠ '\r' := by
    unfold Line.separator
    intro c hc
    have hmark : c = ':' ∨ c = ' ' := by
      cases hplain : l.plain with
      | true => simpa [hplain] using hc
      | false => simpa [hplain] using hc
    rcases hmark with rfl | rfl
    all_goals decide
  have hchars : ∀ line ∈ l.print, ∀ c ∈ line, c ≠ '\n' ∧ c ≠ '\r' := by
    intro line hline c hc
    rcases List.mem_cons.mp hline with rfl | hline
    · rcases List.mem_append.mp hc with hc | hc
      · rcases List.mem_append.mp hc with hc | hc
        · exact (l.attr_plain.2 c hc).2.2.2
        · exact hsep c hc
      · exact hbody c (List.mem_append_left _ hc)
    · obtain ⟨fold, hfold, rfl⟩ := List.mem_map.mp hline
      rcases List.mem_cons.mp hc with rfl | hc
      · decide
      · exact hbody c (List.mem_append_right _ (List.mem_flatten.mpr ⟨fold, hfold, hc⟩))
  intro line hline
  exact ⟨fun h => (hchars line hline _ h).1 rfl, fun h => (hchars line hline _ h).2 rfl⟩

end Text

section Blocks

/-- What a record is read as. -/
def Record.readBy (r : Record) : Entry := (r.all.map (Line.readBy shown)).foldl pushRead []

/-- The entry of a record, if its name was read. -/
def Record.entryBy (r : Record) : Option Entry :=
  if ((r.readBy shown).lookup "dn").isSome then some (r.readBy shown) else none

/-- A blank line ends what is being read. -/
theorem readLine_blank (s : State) :
    (readLineBy shown) s [] =
      ⟨s.entries ++ (if ((flushBy shown s.current s.pending).lookup "dn").isSome then
        some (flushBy shown s.current s.pending) else none).toList, [], none⟩ := by
  unfold readLineBy
  dsimp only
  rw [if_pos (Or.inl rfl)]
  by_cases h : ((flushBy shown s.current s.pending).lookup "dn").isSome = true
  · simp [h]
  · simp [h]

/-- The lines of a record are printed without line ends. -/
theorem record_dropReturn (r : Record) :
    (r.all.flatMap Line.print).map dropReturn = r.all.flatMap Line.print := by
  have h : ∀ line ∈ r.all.flatMap Line.print, dropReturn line = id line := by
    intro line hline
    obtain ⟨l, _, hl⟩ := List.mem_flatMap.mp hline
    exact dropReturn_eq (l.print_plain line hl).2
  rw [List.map_congr_left h, List.map_id]

/-- A record between blank lines is read as its entry. -/
theorem foldl_record (entries : List Entry) (r : Record) :
    (readLineBy shown) ((r.all.flatMap Line.print).foldl (readLineBy shown) ⟨entries, [], none⟩) [] =
      ⟨entries ++ (r.entryBy shown).toList, [], none⟩ := by
  obtain ⟨hentries, hflush⟩ := foldl_lines shown r.all ⟨entries, [], none⟩
  rw [readLine_blank, hentries, hflush]
  rfl

/-- Nothing of a name is being read. -/
structure Nameless (entries : List Entry) (s : State) : Prop where
  entries : s.entries = entries
  current : s.current.lookup "dn" = none
  pending : ∀ p ∈ s.pending, p.1 ≠ "dn".toList

/-- No name is there once the attribute being read is done with. -/
theorem Nameless.flush {entries : List Entry} {s : State} (h : Nameless entries s) :
    (flushBy shown s.current s.pending).lookup "dn" = none := by
  cases hp : s.pending with
  | none => exact h.current
  | some p =>
    have hne := h.pending p (by rw [hp]; rfl)
    rw [flush_eq]
    obtain ⟨attr, text, coded⟩ := p
    have hattr : "dn" ≠ String.ofList attr := by
      intro heq
      refine hne ?_
      rw [heq, String.toList_ofList]
    have hpush : ∀ value, (s.current.push (String.ofList attr) value).lookup "dn" = none := by
      intro value
      rw [lookup_push, if_neg hattr]
      exact h.current
    cases coded with
    | false => exact hpush _
    | true =>
      have hvalue : Pending.valueBy shown (attr, text, true) =
          (Base64.decode text).map fun raw => (String.ofList attr, shown raw) := rfl
      rw [hvalue]
      cases Base64.decode text with
      | none => exact h.current
      | some raw => exact hpush _

/-- A line of a referral brings no name. -/
theorem Nameless.readLine {entries : List Entry} {s : State} (h : Nameless entries s)
    {line : List Char} (hline : line.head? = some ' ' ∨ line.head? = some 'r') :
    Nameless entries ((readLineBy shown) s line) := by
  cases line with
  | nil => simp at hline
  | cons c rest =>
    rw [List.head?_cons, Option.some.injEq, Option.some.injEq] at hline
    rcases hline with rfl | rfl
    · refine ⟨h.entries, h.current, ?_⟩
      intro p hp
      change p ∈ s.pending.map _ at hp
      obtain ⟨q, hq, rfl⟩ := Option.map_eq_some_iff.mp hp
      exact h.pending q hq
    · have hkey : ∀ {pattern attr text : List Char},
          cutAt pattern ('r' :: rest) = some (attr, text) → attr ≠ "dn".toList := by
        intro pattern attr text hcut heq
        have hprefix := cutAt_prefix hcut
        rw [heq] at hprefix
        have hhead : "dn".toList = ['d', 'n'] := by decide
        rw [hhead, List.cons_prefix_cons] at hprefix
        exact absurd hprefix.1 (by decide)
      have hcurrent := h.flush shown
      unfold readLineBy
      dsimp only
      rw [if_neg (by simp)]
      cases hcoded : cutAt ":: ".toList ('r' :: rest) with
      | some q =>
        refine ⟨h.entries, hcurrent, ?_⟩
        intro p hp
        cases hp
        exact hkey hcoded
      | none =>
        dsimp only
        cases hplain : cutAt ": ".toList ('r' :: rest) with
        | some q =>
          refine ⟨h.entries, hcurrent, ?_⟩
          intro p hp
          cases hp
          exact hkey hplain
        | none =>
          refine ⟨h.entries, hcurrent, ?_⟩
          intro p hp
          cases hp

/-- The record of a block, if it is one. -/
def Block.records : Block → List Record
  | .record r => [r]
  | _ => []

/-- A comment brings nothing. -/
theorem foldl_comment (entries : List Entry) (text : List Char) (folds : List (List Char)) :
    (('#' :: text) :: folds.map fun fold => ' ' :: fold).foldl (readLineBy shown) ⟨entries, [], none⟩ =
      ⟨entries, [], none⟩ := by
  rw [List.foldl_cons]
  change (folds.map fun fold => ' ' :: fold).foldl (readLineBy shown) ⟨entries, [], none⟩ = _
  induction folds with
  | nil => rfl
  | cons fold folds ih => exact ih

/-- The lines of referrals bring no name. -/
theorem Nameless.foldl {entries : List Entry} {s : State} (h : Nameless entries s)
    {ls : List (List Char)} (hls : ∀ l ∈ ls, l.head? = some ' ' ∨ l.head? = some 'r') :
    Nameless entries (ls.foldl (readLineBy shown) s) := by
  induction ls generalizing s with
  | nil => exact h
  | cons l ls ih =>
    obtain ⟨hfirst, hrest⟩ := List.forall_mem_cons.mp hls
    exact ih (h.readLine shown hfirst) hrest

/-- What the lines of referrals start with. -/
theorem referral_head {urls : List (Text × List Text)} {line : List Char}
    (h : line ∈ (urls.flatMap fun u => printFolded ("ref: ".toList ++ u.1.1) u.2).map dropReturn) :
    line.head? = some ' ' ∨ line.head? = some 'r' := by
  obtain ⟨printed, hprinted, rfl⟩ := List.mem_map.mp h
  obtain ⟨u, _, hprinted⟩ := List.mem_flatMap.mp hprinted
  have href : "ref: ".toList = ['r', 'e', 'f', ':', ' '] := by decide
  rcases List.mem_cons.mp hprinted with rfl | hprinted
  · rw [href, List.cons_append, dropReturn_cons (by decide)]
    exact Or.inr rfl
  · obtain ⟨fold, _, rfl⟩ := List.mem_map.mp hprinted
    rw [dropReturn_cons (by decide)]
    exact Or.inl rfl

/-- A block is read as the entry of its record, if it is one. -/
theorem foldl_block (entries : List Entry) (b : Block) :
    (b.print.map dropReturn).foldl (readLineBy shown) ⟨entries, [], none⟩ =
      ⟨entries ++ b.records.filterMap (Record.entryBy shown), [], none⟩ := by
  cases b with
  | record r =>
    have hentry : [r].filterMap (Record.entryBy shown) = (r.entryBy shown).toList := by
      rw [List.filterMap_cons, List.filterMap_nil]
      cases (r.entryBy shown) with
      | none => rfl
      | some e => rfl
    change ((r.all.flatMap Line.print ++ [[]]).map dropReturn).foldl (readLineBy shown) _ =
      ⟨entries ++ [r].filterMap (Record.entryBy shown), [], none⟩
    rw [List.map_append, List.foldl_append, record_dropReturn, hentry, ← foldl_record]
    rfl
  | comment text folds =>
    have hprint : (Block.comment text folds).print.map dropReturn =
        ('#' :: dropReturn text.1) ::
          (folds.map fun fold => dropReturn fold.1).map fun fold => ' ' :: fold := by
      change (('#' :: text.1) :: folds.map fun fold => ' ' :: fold.1).map dropReturn = _
      rw [List.map_cons, dropReturn_cons (by decide), List.map_map, List.map_map]
      congr 1
      refine List.map_congr_left ?_
      intro fold _
      exact dropReturn_cons (by decide) fold.1
    rw [hprint, foldl_comment]
    change _ = (⟨entries ++ [], [], none⟩ : State)
    rw [List.append_nil]
  | referral urls =>
    have hstart : Nameless entries ⟨entries, [], none⟩ := ⟨rfl, rfl, by simp⟩
    have hread := hstart.foldl shown fun l hl => @referral_head urls l hl
    change (((urls.flatMap fun u : Text × List Text =>
      printFolded ("ref: ".toList ++ u.1.1) u.2) ++ [[]]).map dropReturn).foldl (readLineBy shown) _ =
        ⟨entries ++ [], [], none⟩
    rw [List.map_append, List.foldl_append]
    change (readLineBy shown) _ [] = _
    rw [readLine_blank, hread.flush, hread.entries]
    rfl
  | blank =>
    change (readLineBy shown) ⟨entries, [], none⟩ [] = _
    rw [readLine_blank]
    rfl

/-- Blocks are read as the entries of their records. -/
theorem foldl_blocks (blocks : List Block) (entries : List Entry) :
    ((blocks.flatMap Block.print).map dropReturn).foldl (readLineBy shown) ⟨entries, [], none⟩ =
      ⟨entries ++ (blocks.flatMap Block.records).filterMap (Record.entryBy shown), [], none⟩ := by
  induction blocks generalizing entries with
  | nil => simp
  | cons b blocks ih =>
    rw [List.flatMap_cons, List.map_append, List.foldl_append, foldl_block, ih, List.flatMap_cons,
      List.filterMap_append, List.append_assoc]

/-- No printed line holds a line feed. -/
theorem Block.print_feed (b : Block) : ∀ line ∈ b.print, '\n' ∉ line := by
  have hfolded : ∀ {text : List Char}, '\n' ∉ text → ∀ folds : List Text,
      ∀ line ∈ printFolded text folds, '\n' ∉ line := by
    intro text htext folds line hline
    rcases List.mem_cons.mp hline with rfl | hline
    · exact htext
    · obtain ⟨fold, _, rfl⟩ := List.mem_map.mp hline
      have hfold := fold.2
      simpa using hfold
  cases b with
  | record r =>
    intro line hline
    rcases List.mem_append.mp hline with hline | hline
    · obtain ⟨l, _, hl⟩ := List.mem_flatMap.mp hline
      exact (l.print_plain line hl).1
    · rw [List.mem_singleton.mp hline]
      simp
  | comment text folds =>
    have htext := text.2
    exact hfolded (by simpa using htext) folds
  | referral urls =>
    intro line hline
    rcases List.mem_append.mp hline with hline | hline
    · obtain ⟨u, _, hu⟩ := List.mem_flatMap.mp hline
      have hurl := u.1.2
      exact hfolded (by simpa using hurl) u.2 line hu
    · rw [List.mem_singleton.mp hline]
      simp
  | blank =>
    intro line hline
    rw [List.mem_singleton.mp hline]
    simp

end Blocks

section Documents

/-- The records of a document are those of its blocks, and the last. -/
theorem Document.records_eq (d : Document) :
    d.records = d.blocks.flatMap Block.records ++ d.last.toList := by
  unfold Document.records
  congr 1
  induction d.blocks with
  | nil => rfl
  | cons b blocks ih =>
    rw [List.flatMap_cons, ← ih]
    cases b with
    | record r => rfl
    | comment text folds => rfl
    | referral urls => rfl
    | blank => rfl

/-- What is read of a document: the entries of its records. -/
theorem entriesBy_print (d : Document) :
    entriesBy shown d.print = d.records.filterMap (Record.entryBy shown) := by
  have hfeed : ∀ line ∈ d.lines, '\n' ∉ line := by
    intro line hline
    rcases List.mem_append.mp hline with hline | hline
    · obtain ⟨b, _, hb⟩ := List.mem_flatMap.mp hline
      exact b.print_feed line hb
    · obtain ⟨r, _, hr⟩ := List.mem_flatMap.mp hline
      obtain ⟨l, _, hl⟩ := List.mem_flatMap.mp hr
      exact (l.print_plain line hl).1
  unfold entriesBy Document.print
  rw [lines_print hfeed, Document.records_eq, Document.lines, List.map_append, List.foldl_append,
    List.foldl_append, foldl_blocks, List.nil_append, List.filterMap_append]
  cases d.last with
  | none =>
    have hlines : (none : Option Record).toList.flatMap (fun r => r.all.flatMap Line.print) = [] :=
      rfl
    rw [hlines, List.map_nil, List.foldl_nil, List.foldl_cons, List.foldl_nil, readLine_blank]
    rfl
  | some r =>
    have hlines : (some r).toList.flatMap (fun r => r.all.flatMap Line.print) =
        r.all.flatMap Line.print := List.append_nil _
    rw [hlines, record_dropReturn]
    change ((readLineBy shown) _ []).entries = _
    rw [foldl_record]
    rfl

/-- How the value of a line is read: its characters, if it is printed plain. -/
def Line.shownBy (l : Line) : String :=
  if l.plain then String.ofList (asciiChars l.value) else shown l.value

/-- A line without the separator of base64 is read under its name. -/
theorem Line.readBy_clear {l : Line} (h : l.Clear) :
    l.readBy shown = some (String.ofList l.attr, l.shownBy shown) := by
  unfold Line.readBy Line.pending Line.shownBy
  cases hplain : l.plain with
  | false =>
    rw [if_neg (by simp)]
    change (Base64.decode (Base64.encode l.value)).map _ = _
    rw [Base64.decode_encode]
    rfl
  | true =>
    rw [if_pos rfl, h hplain]
    rfl

/-- A line with the separator of base64 in it is read under another name, if at all. -/
theorem Line.readBy_unclear {l : Line} (h : ¬ l.Clear) {p : String × String}
    (hread : l.readBy shown = some p) : ':' ∈ p.1.toList := by
  have hplain : l.plain = true := by
    by_contra hno
    exact h fun hyes => absurd hyes hno
  have hcut : cutAt ":: ".toList l.head ≠ none := fun hnone => h fun _ => hnone
  obtain ⟨q, hq⟩ := Option.ne_none_iff_exists'.mp hcut
  unfold Line.readBy Line.pending at hread
  rw [if_pos hplain, hq] at hread
  obtain ⟨raw, _, rfl⟩ := Option.map_eq_some_iff.mp hread
  rw [String.toList_ofList]
  simp

/-- The values read of an attribute are those of its lines that are read as printed. -/
theorem Record.readBy_values (r : Record) {attr : String}
    (hattr : ∀ l ∈ r.all, ¬ l.Clear → ':' ∉ attr.toList) :
    (r.readBy shown).values attr =
      ((r.all.filter fun l => String.ofList l.attr = attr).filter fun l => decide l.Clear).map
        (Line.shownBy shown) := by
  unfold Record.readBy
  rw [values_foldl]
  change [] ++ _ = _
  rw [List.nil_append]
  generalize r.all = lines at hattr ⊢
  induction lines with
  | nil => rfl
  | cons l lines ih =>
    obtain ⟨hfirst, hrest⟩ := List.forall_mem_cons.mp hattr
    have hlines := ih hrest
    rw [List.map_cons, List.filter_cons]
    by_cases hclear : l.Clear
    · have hread : (l.readBy shown :: lines.map (Line.readBy shown)).filterMap id =
          (String.ofList l.attr, l.shownBy shown) ::
            (lines.map (Line.readBy shown)).filterMap id := by
        rw [Line.readBy_clear shown hclear]
        rfl
      rw [hread, List.filter_cons]
      by_cases hname : String.ofList l.attr = attr
      · rw [if_pos (by simpa using hname), if_pos (by simpa using hname), List.map_cons, hlines,
          List.filter_cons_of_pos (by simpa using hclear), List.map_cons]
      · rw [if_neg (by simpa using hname), if_neg (by simpa using hname), hlines]
    · have hskip : ((l.readBy shown :: lines.map (Line.readBy shown)).filterMap id).filter
            (fun p => decide (p.1 = attr)) =
          ((lines.map (Line.readBy shown)).filterMap id).filter fun p => decide (p.1 = attr) := by
        cases hread : l.readBy shown with
        | none => rfl
        | some p =>
          have hne : ¬ p.1 = attr := by
            intro heq
            exact hfirst hclear (heq ▸ Line.readBy_unclear shown hclear hread)
          change (p :: (lines.map (Line.readBy shown)).filterMap id).filter _ = _
          rw [List.filter_cons_of_neg (by simpa using hne)]
      rw [hskip, hlines]
      by_cases hname : String.ofList l.attr = attr
      · rw [if_pos (by simpa using hname), List.filter_cons_of_neg (by simpa using hclear)]
      · rw [if_neg (by simpa using hname)]

/-- The name of a line holds no colon, as text. -/
theorem Line.name_colon (l : Line) : ':' ∉ (String.ofList l.attr).toList := by
  rw [String.toList_ofList]
  exact fun h => (l.attr_plain.2 ':' h).1 rfl

end Documents

end Kerbridge.Ldif

import Kerbridge.NameShapes

/-!
# What is left of a display name

A display name loses what a name component may not hold: its reserved characters become
blanks, the blanks at its ends go, then the number signs in front, then the blanks again. The
steps run once and in this order, so a number sign behind a blank behind a number sign stays.
-/

namespace Kerbridge.PlannerNames

open UnicodeText DistinguishedName

section Trims

variable {p : Char → Bool} {cs : List Char}

/-- A trim from the end stops at a character that stays. -/
theorem rdropWhile_append_cons {stop : Char} (hstop : p stop = false) (front back : List Char) :
    (front ++ stop :: back).rdropWhile p = front ++ stop :: back.rdropWhile p := by
  induction back using List.reverseRecOn with
  | nil =>
    rw [List.rdropWhile_concat_neg p front stop (by rw [hstop]; exact Bool.false_ne_true),
      List.rdropWhile_nil]
  | append_singleton back last ih =>
    have hmoved : front ++ stop :: (back ++ [last]) = (front ++ stop :: back) ++ [last] := by simp
    rw [hmoved, List.rdropWhile_concat, List.rdropWhile_concat]
    split
    · exact ih
    · simp

/-- The first character behind the ones that are dropped. -/
theorem head_dropWhile {c : Char} (h : (cs.dropWhile p).head? = some c) : p c = false := by
  have hnot := List.head?_dropWhile_not p cs
  rw [h] at hnot
  exact hnot

/-- What a trim from the end leaves begins as the text does. -/
theorem head_rdropWhile {c : Char} (h : (cs.rdropWhile p).head? = some c) : cs.head? = some c := by
  obtain ⟨rest, hrest⟩ := List.rdropWhile_prefix p cs
  rw [← hrest, List.head?_append, h]
  rfl

/-- A trimmed text neither begins nor ends with white space. -/
theorem trim_ends {s : String} : (∀ c ∈ (trim s).toList.head?, isWhitespace c = false) ∧
    ∀ c ∈ (trim s).toList.getLast?, isWhitespace c = false := by
  rw [trim, trimEndMatches, trimStartMatches, String.toList_ofList, String.toList_ofList]
  constructor
  · intro c hc
    exact head_dropWhile (head_rdropWhile hc)
  · intro c hc
    obtain ⟨hne, hlast⟩ := List.mem_getLast?_eq_getLast hc
    rw [hlast]
    rw [Bool.eq_false_iff]
    exact List.rdropWhile_last_not _ _ hne

end Trims

/-- The characters of a display name, read as those of a name. -/
def readName (value : String) : List Char := value.toList.map nameChar

/-- A number sign behind white space behind the number signs a name begins with. -/
def HashBehindHash (value : String) : Prop :=
  ∃ front hashes blanks rest, readName value = front ++ hashes ++ blanks ++ '#' :: rest ∧
    (∀ c ∈ front, isWhitespace c = true) ∧
    (hashes ≠ [] ∧ ∀ c ∈ hashes, c = '#') ∧
    blanks ≠ [] ∧ ∀ c ∈ blanks, isWhitespace c = true

/-- What is left of a display name, before the last trim. -/
def unhashed (value : String) : List Char :=
  (((readName value).dropWhile isWhitespace).rdropWhile isWhitespace).dropWhile (· == '#')

/-- What is left of a display name, by its characters. -/
theorem safeName_eq_some_iff {value text : String} : safeName value = some text ↔
    text = trim (String.ofList (unhashed value)) ∧ text ≠ "" := by
  have htrim : trimStartMatches (· == '#') (trim (String.ofList (value.toList.map nameChar))) =
      String.ofList (unhashed value) := by
    simp [trimStartMatches, trim, trimEndMatches, unhashed, readName]
  have hname : safeName value = if (trim (String.ofList (unhashed value))).isEmpty then none
      else some (trim (String.ofList (unhashed value))) := by
    rw [← htrim]
    rfl
  rw [hname]
  generalize trim (String.ofList (unhashed value)) = left
  by_cases hempty : left.isEmpty = true
  · rw [if_pos hempty, String.isEmpty_iff.mp hempty]
    constructor
    · intro h
      cases h
    · rintro ⟨rfl, hne⟩
      exact absurd rfl hne
  · rw [if_neg hempty]
    constructor
    · intro h
      cases h
      exact ⟨rfl, fun hnone => hempty (String.isEmpty_iff.mpr hnone)⟩
    · rintro ⟨rfl, _⟩
      rfl

/-- What is left begins with a number sign when one is left behind the blanks. -/
theorem head_trim_unhashed {value : String} :
    (trim (String.ofList (unhashed value))).toList.head? = some '#' ↔
      ((unhashed value).dropWhile isWhitespace).head? = some '#' := by
  rw [trim, trimEndMatches, trimStartMatches, String.toList_ofList, String.toList_ofList,
    String.toList_ofList]
  constructor
  · exact head_rdropWhile
  · intro h
    cases hleft : (unhashed value).dropWhile isWhitespace with
    | nil =>
      rw [hleft] at h
      cases h
    | cons c rest =>
      rw [hleft] at h
      cases h
      have hhash : isWhitespace '#' = false := by decide
      have hstop := rdropWhile_append_cons hhash [] rest
      rw [List.nil_append] at hstop
      rw [hstop]
      rfl

/-- A number sign is left behind the blanks exactly when it stands behind a blank behind a number
sign. -/
theorem hashBehindHash_iff {value : String} :
    HashBehindHash value ↔ ((unhashed value).dropWhile isWhitespace).head? = some '#' := by
  have hhash : isWhitespace '#' = false := by decide
  constructor
  · rintro ⟨front, hashes, blanks, rest, hread, hfront, ⟨hsome, hhashes⟩, hsomeBlank, hblanks⟩
    obtain ⟨hash, more, rfl⟩ := List.exists_cons_of_ne_nil hsome
    have hfirst : hash = '#' := hhashes hash List.mem_cons_self
    have hbegin : (readName value).dropWhile isWhitespace =
        hash :: more ++ blanks ++ '#' :: rest := by
      rw [hread, List.append_assoc, List.append_assoc, List.dropWhile_append_of_pos hfront,
        List.cons_append, List.dropWhile_cons_of_neg (by rw [hfirst, hhash]; decide),
        ← List.append_assoc, List.cons_append, List.cons_append]
    have hleft : unhashed value = blanks ++ '#' :: rest.rdropWhile isWhitespace := by
      unfold unhashed
      rw [hbegin, rdropWhile_append_cons hhash, List.append_assoc, List.dropWhile_append_of_pos]
      · cases blanks with
        | nil => exact absurd rfl hsomeBlank
        | cons blank blanks =>
          have hne : (blank == '#') = false := by
            rw [beq_eq_false_iff_ne]
            rintro rfl
            have hwhite := hblanks '#' List.mem_cons_self
            rw [hhash] at hwhite
            cases hwhite
          rw [List.cons_append, List.dropWhile_cons_of_neg (by rw [hne]; exact Bool.false_ne_true)]
      · intro c hc
        exact beq_iff_eq.mpr (hhashes c hc)
    rw [hleft, List.dropWhile_append_of_pos hblanks,
      List.dropWhile_cons_of_neg (by rw [hhash]; exact Bool.false_ne_true)]
    rfl
  · intro h
    obtain ⟨rest, hrest⟩ : ∃ rest, (unhashed value).dropWhile isWhitespace = '#' :: rest :=
      List.head?_eq_some_iff.mp h
    obtain ⟨front, hfront⟩ : ∃ front, front = (readName value).takeWhile isWhitespace := ⟨_, rfl⟩
    obtain ⟨begun, hbegun⟩ : ∃ begun, begun = (readName value).dropWhile isWhitespace := ⟨_, rfl⟩
    obtain ⟨ended, hended⟩ : ∃ ended, ended = begun.rdropWhile isWhitespace := ⟨_, rfl⟩
    obtain ⟨hashes, hhashes⟩ : ∃ hashes, hashes = ended.takeWhile (· == '#') := ⟨_, rfl⟩
    obtain ⟨blanks, hblanks⟩ : ∃ blanks, blanks = (unhashed value).takeWhile isWhitespace :=
      ⟨_, rfl⟩
    obtain ⟨tail, htail⟩ := List.rdropWhile_prefix isWhitespace begun
    have hunhashed : unhashed value = ended.dropWhile (· == '#') := by
      rw [hended, hbegun]
      rfl
    -- The text falls into what each step drops and what it leaves.
    have hread : readName value = front ++ begun := by
      rw [hfront, hbegun, List.takeWhile_append_dropWhile]
    have hbeginning : begun = ended ++ tail := by rw [hended, htail]
    have hsplit : ended = hashes ++ unhashed value := by
      rw [hhashes, hunhashed, List.takeWhile_append_dropWhile]
    have hleft : unhashed value = blanks ++ '#' :: rest := by
      rw [hblanks, ← hrest, List.takeWhile_append_dropWhile]
    have hwhite : ∀ c ∈ blanks, isWhitespace c = true := by
      rw [hblanks]
      exact fun c hc => List.mem_takeWhile_imp hc
    have hsomeBlank : blanks ≠ [] := by
      intro hnil
      rw [hnil, List.nil_append, hunhashed] at hleft
      have hhead : (ended.dropWhile (· == '#')).head? = some '#' := by
        rw [hleft]
        rfl
      have hnot := head_dropWhile hhead
      cases hnot
    have hsomeHash : hashes ≠ [] := by
      intro hnil
      obtain ⟨blank, more, hcons⟩ := List.exists_cons_of_ne_nil hsomeBlank
      have hhead : begun.head? = some blank := by
        rw [hbeginning, hsplit, hnil, hleft, hcons]
        rfl
      rw [hbegun] at hhead
      have hink := head_dropWhile hhead
      rw [hwhite blank (by rw [hcons]; exact List.mem_cons_self)] at hink
      cases hink
    refine ⟨front, hashes, blanks, rest ++ tail, ?_, ?_, ⟨hsomeHash, ?_⟩, hsomeBlank, hwhite⟩
    · rw [hread, hbeginning, hsplit, hleft]
      simp
    · rw [hfront]
      exact fun c hc => List.mem_takeWhile_imp hc
    · intro c hc
      rw [hhashes] at hc
      exact beq_iff_eq.mp (List.mem_takeWhile_imp (p := (· == '#')) hc)

section Components

variable [UnicodeTables]

omit [UnicodeTables] in
/-- The loop of `parentOf` passes text that splits nothing, and stops at the comma. -/
theorem parentLoop_unsplit {text : List Char} (h : Unsplit text) (rest : List Char) :
    parentLoop (text ++ ',' :: rest) = rest := by
  induction text with
  | nil =>
    rw [List.nil_append, parentLoop.eq_def]
    simp
  | cons c text ih =>
    obtain ⟨hc, htext⟩ := List.forall_mem_cons.mp h
    rw [List.cons_append, parentLoop.eq_def]
    simp only [hc.1, hc.2, if_false]
    exact ih htext

/-- A value of one component, between its name and a parent that reads, is one more component, and
its parent is the parent. -/
theorem Component.over {text : String} (h : Component text) {parent : String} {ps : List String}
    (hparent : dnComponents parent = some ps) :
    (∃ c, dnComponents ("CN=" ++ text ++ "," ++ parent) = some (c :: ps)) ∧
      parentOf ("CN=" ++ text ++ "," ++ parent) = parent := by
  have hplain : Unsplit ("CN=" ++ text).toList := by
    intro c hc
    rw [String.toList_append] at hc
    rcases List.mem_append.mp hc with hc | hc
    · exact @unsplit_of_check ("CN=".toList) (by decide) c hc
    · exact h.unsplit c hc
  have hloop : componentLoop [] [] ("CN=" ++ text).toList = some [("CN=" ++ text).toList] := by
    have hall := componentLoop_plain hplain [] [] []
    rwa [List.append_nil, List.nil_append] at hall
  have hnormal : (normalizeComponent ("CN=" ++ text).toList).isSome = true := by
    refine normalizeComponent_isSome.mpr ⟨['C', 'N'], text.toList, ?_, by decide, ?_, h.inked⟩
    · rw [String.toList_append]
      rfl
    · exact ⟨'C', List.mem_cons_self, by decide⟩
  obtain ⟨c, hc⟩ := Option.isSome_iff_exists.mp hnormal
  constructor
  · refine ⟨c, ?_⟩
    rw [dnComponents_append hloop, List.mapM_cons, hc, hparent]
    rfl
  · have hlist : ("CN=" ++ text ++ "," ++ parent).toList =
        ("CN=" ++ text).toList ++ ',' :: parent.toList := by simp
    rw [parentOf, hlist, parentLoop_unsplit hplain, String.ofList_toList]

/-- One clean value of a name component. -/
structure CleanValue (text : String) : Prop where
  nonempty : text ≠ ""
  unreserved : ∀ c ∈ text.toList, isControl c = false ∧ c ∉ nameReserved
  unhashed : text.toList.head? ≠ some '#'
  inkedFront : ∀ c ∈ text.toList.head?, isWhitespace c = false
  inkedEnd : ∀ c ∈ text.toList.getLast?, isWhitespace c = false
  /-- Over a parent that reads it is one component. -/
  component : ∀ parent ps, dnComponents parent = some ps →
    (∃ c, dnComponents ("CN=" ++ text ++ "," ++ parent) = some (c :: ps)) ∧
      parentOf ("CN=" ++ text ++ "," ++ parent) = parent

omit [UnicodeTables] in
/-- No character of a name is reserved. -/
theorem nameChar_unreserved (c : Char) :
    isControl (nameChar c) = false ∧ nameChar c ∉ nameReserved := by
  unfold nameChar
  by_cases hreserved : (isControl c || nameReserved.contains c) = true
  · rw [if_pos hreserved]
    exact ⟨by decide, by decide⟩
  · rw [if_neg hreserved]
    rw [Bool.or_eq_true, not_or, Bool.not_eq_true, List.contains_iff_mem] at hreserved
    exact hreserved

/-- What is left of a display name is a clean value, unless it begins with a number sign. -/
theorem safeName_clean {value text : String} (h : safeName value = some text)
    (hhash : text.toList.head? ≠ some '#') : CleanValue text := by
  obtain ⟨htext, hne⟩ := safeName_eq_some_iff.mp h
  refine ⟨hne, ?_, hhash, ?_, ?_, fun parent ps hps => (safeName_component h).over hps⟩
  · intro c hc
    rw [htext] at hc
    have hleft := mem_trim hc
    rw [String.toList_ofList] at hleft
    have hread := (List.dropWhile_sublist _).subset ((List.rdropWhile_prefix _ _).subset
      ((List.dropWhile_sublist _).subset hleft))
    obtain ⟨d, _, rfl⟩ := List.mem_map.mp hread
    exact nameChar_unreserved d
  · rw [htext]
    exact trim_ends.1
  · rw [htext]
    exact trim_ends.2

/-- **A display name leaves one clean value, or nothing**, exactly when it has no number sign
behind white space behind the number signs it begins with. -/
theorem safeName_clean_iff (value : String) :
    (∀ text, safeName value = some text → CleanValue text) ↔ ¬HashBehindHash value := by
  rw [hashBehindHash_iff, ← head_trim_unhashed]
  constructor
  · intro h hhead
    have hne : trim (String.ofList (unhashed value)) ≠ "" := by
      intro hempty
      rw [hempty] at hhead
      cases hhead
    exact (h _ (safeName_eq_some_iff.mpr ⟨rfl, hne⟩)).unhashed hhead
  · intro h text htext
    refine safeName_clean htext ?_
    rw [(safeName_eq_some_iff.mp htext).1]
    exact h

end Components

section Samples

/-- The rule at a name with a number sign in front and reserved characters. -/
theorem safeName_clean_sales : safeName "## Sales,  EU/1" = some "Sales   EU 1" ∧
    @CleanValue asciiTables "Sales   EU 1" := by
  let _ := asciiTables
  have hname : safeName "## Sales,  EU/1" = some "Sales   EU 1" := by decide
  refine ⟨hname, (safeName_clean_iff "## Sales,  EU/1").mpr ?_ _ hname⟩
  rw [hashBehindHash_iff]
  decide

/-- A number sign behind a blank behind a number sign is left in front. -/
theorem safeName_hashed : safeName "# #1,OU=x" = some "#1 OU x" ∧
    ¬@CleanValue asciiTables "#1 OU x" := by
  let _ := asciiTables
  refine ⟨by decide, ?_⟩
  intro hclean
  exact hclean.unhashed (by decide)

end Samples

end Kerbridge.PlannerNames

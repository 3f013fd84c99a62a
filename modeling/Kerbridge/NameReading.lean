import Kerbridge.NameShapes
import Kerbridge.PlannerTurns

/-!
# Which written names read

A name a plan builds lies in the unit exactly when it reads as a name. Sanitized names
do, and so do suffixes of subjects an adapter accepts. A retirement writes the first
characters of a stored subject, which may hold anything: that name reads exactly when the
characters do behind an open parenthesis.
-/

namespace Kerbridge.Planner

open UnicodeText DirectorySource SamName DistinguishedName RealmState StoredIdentity PlannerNames

/-- A part of a text split at a character lies in the text, and every other character of
the text lies in a part. -/
theorem mem_of_splitOn {sep c : Char} {cs : List Char} (h : c ∈ cs) (hne : c ≠ sep) :
    ∃ part ∈ cs.splitOn sep, c ∈ part := by
  rw [← @List.intercalate_splitOn _ cs _ _ sep] at h
  generalize cs.splitOn sep = parts at h
  induction parts with
  | nil => simp at h
  | cons part parts ih =>
    cases parts with
    | nil =>
      rw [List.intercalate_singleton] at h
      exact ⟨part, List.mem_cons_self, h⟩
    | cons next parts =>
      rw [List.intercalate_cons_cons] at h
      simp only [List.mem_append, List.mem_singleton] at h
      rcases h with (h | h) | h
      · exact ⟨part, List.mem_cons_self, h⟩
      · exact absurd h hne
      · obtain ⟨part', hmem, hc⟩ := ih h
        exact ⟨part', List.mem_cons_of_mem _ hmem, hc⟩

/-- A canonical GUID holds hexadecimal digits and hyphens alone. -/
theorem isGuid_chars {s : String} (h : isGuid s = true) {c : Char} (hc : c ∈ s.toList) :
    isLowerHex c = true ∨ c = '-' := by
  by_cases hne : c = '-'
  · exact Or.inr hne
  · left
    obtain ⟨part, hpart, hmem⟩ := mem_of_splitOn hc hne
    unfold isGuid split at h
    rw [Bool.and_eq_true, List.all_eq_true] at h
    have hall := h.2 (String.ofList part) (List.mem_map_of_mem hpart)
    rw [String.toList_ofList, List.all_eq_true] at hall
    exact hall c hmem

/-- The suffix of a canonical GUID splits nothing. -/
theorem oid4_unsplit {oid : Subject} (h : isGuid oid = true) : Unsplit (oid4 oid).toList := by
  intro c hc
  unfold oid4 takeChars at hc
  rw [String.toList_ofList] at hc
  rcases isGuid_chars h (List.mem_of_mem_take hc) with hhex | hdash
  · constructor
    · intro heq
      rw [heq] at hhex
      revert hhex
      decide
    · intro heq
      rw [heq] at hhex
      revert hhex
      decide
  · rw [hdash]
    decide

variable [UnicodeTables]

/-- A name made of a component reads. -/
theorem reads_component {cn : String} (h : Component cn) : Reads ("CN=" ++ cn) := by
  have hunsplit : Unsplit ("CN=" ++ cn).toList := (h.prepend (unsplit_of_check rfl)).unsplit
  refine reads_iff.mpr ((readsOn_unsplit hunsplit).mpr ?_)
  refine normalizeComponent_isSome.mpr ⟨['C', 'N'], cn.toList, ?_, by decide, ?_, h.inked⟩
  · rw [List.nil_append, String.toList_append]
    rfl
  · exact ⟨'C', by decide, by decide⟩

/-- What a unit's name is written behind lies in the unit exactly when it reads, unless it
ends in an escape. -/
theorem dnIn_within {cn parent ou : String} {front : List Char} {last : Char}
    (hcn : cn.toList = front ++ [last]) (hlast : last ≠ '\\')
    (hparent : dnIsAtOrWithin parent ou = true) :
    dnIsAtOrWithin (dnIn cn parent) ou = true ↔ Reads ("CN=" ++ cn) := by
  obtain ⟨xs, hxs⟩ : ∃ xs, componentLoop [] [] ("CN=".toList ++ front ++ [last]) = some xs :=
    componentLoop_isSome hlast [] []
  rw [List.append_assoc, ← hcn, ← String.toList_append] at hxs
  exact within_append hxs hparent

/-- A component makes a name of the unit it is written into. -/
theorem component_within {cn parent ou : String} (hcn : Component cn)
    (hparent : dnIsAtOrWithin parent ou = true) :
    dnIsAtOrWithin (dnIn cn parent) ou = true := by
  obtain ⟨xs, hxs, _⟩ := reads_iff.mp (reads_component hcn)
  exact (within_append hxs hparent).mpr (reads_component hcn)

/-- The suffix that disambiguates a subject's names reads as part of a name. -/
def SuffixReads (oid : Subject) : Prop := Reads ("CN=(" ++ oid4 oid ++ ")")

/-- Behind a component that reads the suffix reads wherever it does. -/
theorem readsOn_oid4 {pre post : List Char} (hpre : (normalizeComponent pre).isSome = true)
    (hpost : Tail post) (oid : Subject) :
    ReadsOn pre ((oid4 oid).toList ++ post) ↔ SuffixReads oid := by
  have hopen : (normalizeComponent "CN=(".toList).isSome = true :=
    normalizeComponent_isSome.mpr ⟨['C', 'N'], ['('], rfl, by decide, ⟨'C', by decide, by decide⟩,
      ⟨'(', by decide, by decide⟩⟩
  have hplain : Unsplit "CN=(".toList := unsplit_of_check rfl
  have hself : SuffixReads oid ↔ ReadsOn "CN=(".toList ((oid4 oid).toList ++ [')']) := by
    have hsplit : ReadsOn [] ("CN=(".toList ++ ((oid4 oid).toList ++ [')'])) ↔
        ReadsOn ([] ++ "CN=(".toList) ((oid4 oid).toList ++ [')']) := readsOn_plain hplain
    rw [List.nil_append] at hsplit
    rw [← hsplit]
    have htext : ("CN=(" ++ oid4 oid ++ ")").toList =
        "CN=(".toList ++ ((oid4 oid).toList ++ [')']) := by
      simp
    unfold SuffixReads
    rw [reads_iff, htext]
    rfl
  rw [hself]
  constructor
  · intro h
    exact readsOn_swap hpost (tail_of_check rfl rfl) (fun more _ => normalizeComponent_append hopen more) h
  · intro h
    exact readsOn_swap (tail_of_check rfl rfl) hpost (fun more _ => normalizeComponent_append hpre more) h

/-- The login name retirement gives when the plain one is free. -/
def retiredSam (sam : String) : String := retiredPrefix ++ sanitizeSam sam 11

/-- What retirement shows an object as. -/
def retiredLabel (sam label : String) (oid : Subject) (samKeys : List String) : String :=
  (safeName label).getD (if fold (retiredSam sam) ∈ samKeys then
    retiredPrefix ++ sanitizeSam sam 6 ++ "-" ++ oid4 oid else retiredSam sam)

/-- The plain name of a retired object is taken. -/
def PlainTaken (p : Planning) (dn sam label : String) (oid : Subject) : Prop :=
  dnIn (retiredLabel sam label oid p.samKeys ++ " (retired)") (parentOf dn) ∈ p.takenDns

instance (p : Planning) (dn sam label : String) (oid : Subject) :
    Decidable (PlainTaken p dn sam label oid) :=
  inferInstanceAs (Decidable (_ ∈ _))

/-- The common name retirement gives an object. -/
theorem releasedNames_cn (p : Planning) (dn sam label : String) (oid : Subject) :
    (releasedNames p dn sam label oid).cn = if PlainTaken p dn sam label oid then
      trim (retiredLabel sam label oid p.samKeys) ++ " (retired " ++ oid4 oid ++ ")"
    else retiredLabel sam label oid p.samKeys ++ " (retired)" := rfl

/-- Retirement writes the suffix of a subject into a name: nothing of the label survives
and the plain login name is taken, or the plain name is. -/
def SuffixWritten (p : Planning) (dn sam label : String) (oid : Subject) : Prop :=
  safeName label = none ∧ fold (retiredSam sam) ∈ p.samKeys ∨ PlainTaken p dn sam label oid

omit [UnicodeTables] in
/-- Trimming a text that begins and goes on visibly takes white space off its end alone. -/
theorem trim_append {a q : List Char} {first last : Char} (hfirst : isWhitespace first = false)
    (hlast : isWhitespace last = false) :
    (trim (String.ofList (first :: a ++ [last] ++ q))).toList =
      first :: a ++ [last] ++ q.rdropWhile isWhitespace := by
  unfold trim trimEndMatches trimStartMatches
  simp only [String.toList_ofList]
  have hstart : List.dropWhile isWhitespace (first :: a ++ [last] ++ q) =
      first :: a ++ [last] ++ q := by
    rw [List.cons_append, List.cons_append, List.dropWhile_cons_of_neg (by simp [hfirst])]
  rw [hstart]
  induction q using List.reverseRecOn with
  | nil =>
    rw [List.append_nil, List.rdropWhile_nil, List.append_nil,
      List.rdropWhile_concat_neg _ _ _ (by simp [hlast])]
  | append_singleton q c ih =>
    rw [← List.append_assoc]
    by_cases hc : isWhitespace c = true
    · rw [List.rdropWhile_concat_pos _ _ _ hc, List.rdropWhile_concat_pos _ _ _ hc]
      refine ih ?_
      rw [List.cons_append, List.cons_append, List.dropWhile_cons_of_neg (by simp [hfirst])]
    · rw [List.rdropWhile_concat_neg _ _ _ hc, List.rdropWhile_concat_neg _ _ _ hc,
        List.append_assoc]

/-- What is read behind a common name's first letters. -/
theorem reads_cn {pre rest : List Char} {cn : String} (h : Unsplit pre)
    (hcn : cn.toList = pre ++ rest) : Reads ("CN=" ++ cn) ↔ ReadsOn ("CN=".toList ++ pre) rest := by
  have hunsplit : Unsplit ("CN=".toList ++ pre) := by
    intro c hc
    rcases List.mem_append.mp hc with hc | hc
    · exact (unsplit_of_check rfl : Unsplit "CN=".toList) c hc
    · exact h c hc
  have htext : ("CN=" ++ cn).toList = "CN=".toList ++ pre ++ rest := by
    rw [String.toList_append, hcn, List.append_assoc]
  have hsplit : ReadsOn [] ("CN=".toList ++ pre ++ rest) ↔
      ReadsOn ([] ++ ("CN=".toList ++ pre)) rest := readsOn_plain hunsplit
  rw [List.nil_append] at hsplit
  rw [reads_iff, htext, ← hsplit]
  rfl

/-- A component reads behind a common name's first letters. -/
theorem normalizeComponent_cn {pre : String} (h : Component pre) :
    (normalizeComponent ("CN=".toList ++ pre.toList)).isSome = true := by
  refine normalizeComponent_isSome.mpr ⟨['C', 'N'], pre.toList, rfl, by decide, ?_, h.inked⟩
  exact ⟨'C', by decide, by decide⟩

/-- A name in which a component stands before the suffix reads exactly when the suffix does. -/
theorem reads_oid4 {pre post : String} (hpre : Component pre) (hpost : Tail post.toList)
    (oid : Subject) : Reads ("CN=" ++ (pre ++ oid4 oid ++ post)) ↔ SuffixReads oid := by
  have htext : (pre ++ oid4 oid ++ post).toList = pre.toList ++ ((oid4 oid).toList ++ post.toList) := by
    simp
  rw [reads_cn hpre.unsplit htext]
  exact readsOn_oid4 (normalizeComponent_cn hpre) hpost oid

omit [UnicodeTables] in
/-- What white space at the end of a text is dropped is no separator. -/
theorem rdropWhile_space (q : List Char) :
    ∃ space, q = q.rdropWhile isWhitespace ++ space ∧ Unsplit space ∧ '=' ∉ space := by
  refine ⟨q.rtakeWhile isWhitespace, List.rdropWhile_append_rtakeWhile.symm, ?_, ?_⟩
  · intro c hc
    have hspace := List.mem_rtakeWhile_imp hc
    constructor
    · intro heq
      rw [heq] at hspace
      revert hspace
      decide
    · intro heq
      rw [heq] at hspace
      revert hspace
      decide
  · intro hc
    have hspace := List.mem_rtakeWhile_imp hc
    revert hspace
    decide

/-- A name with the suffix in it twice reads exactly when the suffix does. -/
theorem reads_oid4_twice {middle : String} (hmiddle : Unsplit middle.toList) (oid : Subject) :
    Reads ("CN=" ++ (trim (retiredPrefix ++ middle ++ "-" ++ oid4 oid) ++ " (retired " ++ oid4 oid ++
      ")")) ↔ SuffixReads oid := by
  have hpre : Component (retiredPrefix ++ middle ++ "-") := by
    refine ⟨?_, '_', ?_, by decide⟩
    · intro c hc
      simp only [String.toList_append, List.mem_append] at hc
      rcases hc with (hc | hc) | hc
      · exact (unsplit_of_check rfl : Unsplit retiredPrefix.toList) c hc
      · exact hmiddle c hc
      · exact (unsplit_of_check rfl : Unsplit "-".toList) c hc
    · simp only [String.toList_append, List.mem_append]
      exact Or.inl (Or.inl (by decide))
  have hshape : retiredPrefix ++ middle ++ "-" ++ oid4 oid = String.ofList ('_' ::
      ("retired-".toList ++ middle.toList) ++ ['-'] ++ (oid4 oid).toList) := by
    apply String.toList_injective
    simp [retiredPrefix]
  have hpreList : (retiredPrefix ++ middle ++ "-").toList =
      '_' :: ("retired-".toList ++ middle.toList) ++ ['-'] := by
    simp [retiredPrefix]
  obtain ⟨space, hq, hspace⟩ := rdropWhile_space (oid4 oid).toList
  have htext : (trim (retiredPrefix ++ middle ++ "-" ++ oid4 oid) ++ " (retired " ++ oid4 oid ++
      ")").toList = (retiredPrefix ++ middle ++ "-").toList ++
        ((oid4 oid).toList.rdropWhile isWhitespace ++ " (retired ".toList ++
          ((oid4 oid).toList ++ [')'])) := by
    rw [String.toList_append, String.toList_append, String.toList_append, hshape,
      trim_append (by decide) (by decide), ← hpreList]
    simp only [List.append_assoc]
    rfl
  rw [reads_cn hpre.unsplit htext, readsOn_twice (normalizeComponent_cn hpre) hq hspace
    (tail_of_check rfl rfl) (tail_of_check rfl rfl)]
  exact readsOn_oid4 (normalizeComponent_cn hpre) (tail_of_check rfl rfl) oid

/-- The name retirement gives reads, unless the suffix is written into it and does not. -/
theorem releasedNames_reads (tables : LetterTables) (p : Planning) (dn sam label : String)
    (oid : Subject) : Reads ("CN=" ++ (releasedNames p dn sam label oid).cn) ↔
      (SuffixWritten p dn sam label oid → SuffixReads oid) := by
  have hretired : Unsplit " (retired)".toList := (tail_of_check rfl rfl).unsplit
  have hhead : Unsplit retiredPrefix.toList := unsplit_of_check rfl
  have hcomponent : ∀ {text : String}, Component text →
      (Reads ("CN=" ++ if PlainTaken p dn sam label oid then
          trim text ++ " (retired " ++ oid4 oid ++ ")" else text ++ " (retired)") ↔
        (PlainTaken p dn sam label oid → SuffixReads oid)) := by
    intro text htext
    by_cases htaken : PlainTaken p dn sam label oid
    · rw [if_pos htaken, reads_oid4 (htext.trimmed.append (tail_of_check rfl rfl).unsplit)
        (tail_of_check rfl rfl)]
      simp [htaken]
    · rw [if_neg htaken]
      simp [htaken, reads_component (htext.append hretired)]
  rw [releasedNames_cn]
  unfold SuffixWritten
  cases hlabel : safeName label with
  | some text =>
    have hshown : retiredLabel sam label oid p.samKeys = text := by
      unfold retiredLabel
      rw [hlabel]
      rfl
    rw [hshown, hcomponent (safeName_component hlabel)]
    simp
  | none =>
    by_cases hheld : fold (retiredSam sam) ∈ p.samKeys
    · have hshown : retiredLabel sam label oid p.samKeys =
          retiredPrefix ++ sanitizeSam sam 6 ++ "-" ++ oid4 oid := by
        unfold retiredLabel
        rw [hlabel, if_pos hheld]
        rfl
      have hsam : Component (sanitizeSam sam 6) := sanitize_component tables _ _ _
      have hwritten : (True ∧ fold (retiredSam sam) ∈ p.samKeys ∨
          PlainTaken p dn sam label oid → SuffixReads oid) ↔ SuffixReads oid := by
        simp [hheld]
      rw [hshown]
      simp only [hwritten]
      by_cases htaken : PlainTaken p dn sam label oid
      · rw [if_pos htaken]
        exact reads_oid4_twice hsam.unsplit oid
      · rw [if_neg htaken]
        have hdash : Unsplit "-".toList := unsplit_of_check rfl
        exact reads_oid4 ((hsam.prepend hhead).append hdash) (tail_of_check rfl rfl) oid
    · have hshown : retiredLabel sam label oid p.samKeys = retiredSam sam := by
        unfold retiredLabel
        rw [hlabel, if_neg hheld]
        rfl
      have hsam : Component (retiredSam sam) :=
        (sanitize_component tables _ _ _).prepend hhead
      rw [hshown, hcomponent hsam]
      simp [hheld]

end Kerbridge.Planner

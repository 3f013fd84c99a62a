import Kerbridge.NameShapes

/-!
# Sanitized names

What `sanitize` derives, `validate` accepts: the copy holds allowed characters only and stays
inside both budgets, and the trim only shortens it. The issuer and the synchroniser therefore
go by one rule.
-/

namespace Kerbridge.SamName

open UnicodeText

/-- Two texts, one behind the other, are as long as both. -/
theorem size_append (a b : List Char) : (String.ofList (a ++ b)).utf8ByteSize =
    (String.ofList a).utf8ByteSize + (String.ofList b).utf8ByteSize := by
  rw [String.ofList_append, String.utf8ByteSize_append]

/-- A text of one character is as long as the character. -/
theorem size_singleton (c : Char) : (String.ofList [c]).utf8ByteSize = c.utf8Size := by
  rw [← String.singleton_eq_ofList, String.utf8ByteSize_singleton]

/-- A part of a text is no longer than the text. -/
theorem size_le_of_within {a b : List Char} (h : a <:+: b) :
    (String.ofList a).utf8ByteSize ≤ (String.ofList b).utf8ByteSize := by
  obtain ⟨before, after, rfl⟩ := h
  rw [size_append, size_append]
  omega

/-- No character takes more than four bytes. -/
theorem size_le_chars (cs : List Char) : (String.ofList cs).utf8ByteSize ≤ 4 * cs.length := by
  induction cs with
  | nil => simp
  | cons c cs ih =>
    have hc := Char.utf8Size_le_four c
    have hcons : (String.ofList (c :: cs)).utf8ByteSize =
        (String.ofList [c]).utf8ByteSize + (String.ofList cs).utf8ByteSize := size_append [c] cs
    rw [hcons, size_singleton, List.length_cons]
    omega

/-- What the two trims of `sanitize` leave of a text. -/
def trimmedEnds (cs : List Char) : List Char :=
  (cs.dropWhile (· == '-')).rdropWhile fun c => c == '.' || c == '-'

/-- The trims leave a part of the text. -/
theorem within_trimmedEnds (cs : List Char) : trimmedEnds cs <:+: cs :=
  (List.rdropWhile_prefix _ _).isInfix.trans (List.dropWhile_suffix _).isInfix

/-- The trims leave no dash in front. -/
theorem trimmedEnds_head (cs : List Char) : (trimmedEnds cs).head? ≠ some '-' := by
  intro h
  obtain ⟨rest, hrest⟩ := List.rdropWhile_prefix (fun c => c == '.' || c == '-')
    (cs.dropWhile (· == '-'))
  have hhead : (cs.dropWhile (· == '-')).head? = some '-' := by
    rw [← hrest, List.head?_append, ← trimmedEnds, h]
    rfl
  have hnot := List.head?_dropWhile_not (· == '-') cs
  rw [hhead] at hnot
  simp at hnot

section Tables

variable [UnicodeTables]

/-- A name that may be used. -/
structure Valid (name : List Char) : Prop where
  nonempty : name ≠ []
  short : (String.ofList name).utf8ByteSize ≤ maxBytes
  undashed : name.head? ≠ some '-'
  allowed : ∀ c ∈ name, allowed c = true

/-- The check accepts exactly the names that may be used. -/
theorem validate_ok_iff {sam : String} : validate sam = .ok () ↔ Valid sam.toList := by
  have hdash : startsWith sam "-" = true ↔ sam.toList.head? = some '-' := by
    unfold startsWith
    cases sam.toList with
    | nil => decide
    | cons c cs =>
      change (['-'].isPrefixOf (c :: cs)) = true ↔ _
      rw [List.isPrefixOf_iff_prefix, List.cons_prefix_cons, List.head?_cons, Option.some.injEq,
        eq_comm]
      simp
  have hfind : sam.toList.find? (fun c => !allowed c) = none ↔
      ∀ c ∈ sam.toList, allowed c = true := by simp
  unfold validate
  constructor
  · intro h
    split_ifs at h with hempty hlong hstart
    refine ⟨?_, ?_, mt hdash.mpr hstart, ?_⟩
    · exact mt (fun hnil => String.isEmpty_iff.mpr (String.toList_eq_nil_iff.mp hnil)) hempty
    · rw [String.ofList_toList]
      exact Nat.le_of_not_lt hlong
    · refine hfind.mp ?_
      cases hf : sam.toList.find? fun c => !allowed c with
      | none => rfl
      | some c =>
        rw [hf] at h
        cases h
  · intro h
    have hempty : sam.isEmpty = false := by
      rw [Bool.eq_false_iff]
      exact fun hnil => h.nonempty (String.toList_eq_nil_iff.mpr (String.isEmpty_iff.mp hnil))
    have hshort : ¬ maxBytes < sam.utf8ByteSize := by
      have hle := h.short
      rw [String.ofList_toList] at hle
      omega
    rw [hempty, if_neg Bool.false_ne_true, if_neg hshort, if_neg (mt hdash.mp h.undashed),
      hfind.mpr h.allowed]

/-- The copy stays inside both budgets. -/
theorem sanitizeLoop_sizes {maxChars maxLen : ℕ} {out cs : List Char}
    (hchars : out.length ≤ maxChars) (hlen : (String.ofList out).utf8ByteSize ≤ maxLen) :
    (sanitizeLoop maxChars maxLen out cs).length ≤ maxChars ∧
      (String.ofList (sanitizeLoop maxChars maxLen out cs)).utf8ByteSize ≤ maxLen := by
  fun_induction sanitizeLoop maxChars maxLen out cs with
  | case1 out => exact ⟨hchars, hlen⟩
  | case2 out c rest _ ih => exact ih hchars hlen
  | case3 out c rest _ _ => exact ⟨hchars, hlen⟩
  | case4 out c rest _ hfits ih =>
    simp only [Bool.or_eq_true, decide_eq_true_eq, not_or, Nat.not_le, Nat.not_lt] at hfits
    refine ih ?_ ?_
    · rw [List.length_append, List.length_singleton]
      omega
    · rw [size_append, size_singleton]
      exact hfits.2

/-- The copy takes characters of the source. -/
theorem mem_sanitizeLoop {maxChars maxLen : ℕ} {out cs : List Char} {c : Char}
    (h : c ∈ sanitizeLoop maxChars maxLen out cs) : c ∈ out ∨ c ∈ cs := by
  fun_induction sanitizeLoop maxChars maxLen out cs with
  | case1 out => exact Or.inl h
  | case2 out d rest _ ih => exact (ih h).imp_right (List.mem_cons_of_mem d)
  | case3 out d rest _ _ => exact Or.inl h
  | case4 out d rest _ _ ih =>
    rcases ih h with hout | hrest
    · rcases List.mem_append.mp hout with hout | hd
      · exact Or.inl hout
      · rw [List.mem_singleton.mp hd]
        exact Or.inr List.mem_cons_self
    · exact Or.inr (List.mem_cons_of_mem d hrest)

/-- The copy of a text that fits is what is allowed of it. -/
theorem sanitizeLoop_fits {maxChars maxLen : ℕ} {out cs : List Char}
    (hchars : (out ++ cs.filter allowed).length ≤ maxChars)
    (hlen : (String.ofList (out ++ cs.filter allowed)).utf8ByteSize ≤ maxLen) :
    sanitizeLoop maxChars maxLen out cs = out ++ cs.filter allowed := by
  fun_induction sanitizeLoop maxChars maxLen out cs with
  | case1 out => rw [List.filter_nil, List.append_nil]
  | case2 out c rest hnot ih =>
    have hskip : (c :: rest).filter allowed = rest.filter allowed := by
      rw [List.filter_cons_of_neg]
      simpa using hnot
    rw [hskip] at hchars hlen ⊢
    exact ih hchars hlen
  | case3 out c rest hallowed hfull =>
    have htake : (c :: rest).filter allowed = c :: rest.filter allowed := by
      rw [List.filter_cons_of_pos]
      simpa using hallowed
    rw [htake, List.append_cons, List.length_append, List.length_append, List.length_singleton]
      at hchars
    rw [htake, List.append_cons, size_append, size_append, size_singleton] at hlen
    rw [Bool.or_eq_true, decide_eq_true_eq, decide_eq_true_eq] at hfull
    omega
  | case4 out c rest hallowed hfits ih =>
    have htake : (c :: rest).filter allowed = c :: rest.filter allowed := by
      rw [List.filter_cons_of_pos]
      simpa using hallowed
    have hmoved : out ++ c :: rest.filter allowed = out ++ [c] ++ rest.filter allowed :=
      List.append_cons _ _ _
    rw [htake, hmoved] at hchars hlen ⊢
    exact ih hchars hlen

/-- The characters `sanitize` copies, before the trim. -/
def copied (source : List Char) (maxChars maxLen : ℕ) : List Char :=
  sanitizeLoop maxChars maxLen [] (source.flatMap UnicodeTables.toLowercase)

/-- What `sanitize` derives, by its characters. -/
theorem toList_sanitize (source : String) (maxChars maxLen : ℕ) :
    (sanitize source maxChars maxLen).toList =
      if trimmedEnds (copied source.toList maxChars maxLen) = [] then fallback.toList
      else trimmedEnds (copied source.toList maxChars maxLen) := by
  have htrim : trimEndMatches (fun c => c == '.' || c == '-') (trimStartMatches (· == '-')
      (String.ofList (copied source.toList maxChars maxLen))) =
        String.ofList (trimmedEnds (copied source.toList maxChars maxLen)) := by
    simp [trimEndMatches, trimStartMatches, trimmedEnds]
  unfold sanitize
  unfold copied at htrim
  dsimp only
  rw [htrim]
  change (if (String.ofList (trimmedEnds (copied source.toList maxChars maxLen))).isEmpty = true
    then fallback else String.ofList (trimmedEnds (copied source.toList maxChars maxLen))).toList = _
  by_cases hnil : trimmedEnds (copied source.toList maxChars maxLen) = []
  · rw [if_pos hnil, hnil]
    rfl
  · rw [if_neg hnil, if_neg, String.toList_ofList]
    intro hempty
    refine hnil ?_
    rw [← String.toList_eq_nil_iff.mpr (String.isEmpty_iff.mp hempty), String.toList_ofList]

/-- The tables class the letters and digits of ASCII as such. -/
def AsciiNames : Prop := ∀ c : Char, c.isAlphanum = true → UnicodeTables.alphanumeric c = true

/-- A text of ASCII letters, digits and separators is allowed. -/
theorem AsciiNames.allowed (h : AsciiNames) {text : List Char}
    (htext : (text.all fun c => c.isAlphanum || c == '.' || c == '-' || c == '_') = true) :
    ∀ c ∈ text, SamName.allowed c = true := by
  intro c hc
  have hclass := List.all_eq_true.mp htext c hc
  simp only [Bool.or_eq_true, beq_iff_eq] at hclass
  simp only [SamName.allowed, Bool.or_eq_true, beq_iff_eq]
  rcases hclass with ((hclass | hclass) | hclass) | hclass
  · exact Or.inl (Or.inl (Or.inl (h c hclass)))
  · exact Or.inl (Or.inl (Or.inr hclass))
  · exact Or.inl (Or.inr hclass)
  · exact Or.inr hclass

/-- The name that stands in is valid. -/
theorem fallback_valid (h : AsciiNames) : Valid fallback.toList where
  nonempty := by decide
  short := by decide
  undashed := by decide
  allowed := h.allowed (by decide)

/-- Every derived name is valid, when its budget of bytes is inside the limit. -/
theorem sanitize_valid (h : AsciiNames) (source : String) (maxChars : ℕ) {maxLen : ℕ}
    (hlen : maxLen ≤ maxBytes) : Valid (sanitize source maxChars maxLen).toList := by
  have hsizes : (copied source.toList maxChars maxLen).length ≤ maxChars ∧
      (String.ofList (copied source.toList maxChars maxLen)).utf8ByteSize ≤ maxLen :=
    sanitizeLoop_sizes (Nat.zero_le _) (by simp)
  have hallowed : ∀ c ∈ copied source.toList maxChars maxLen, allowed c = true :=
    PlannerNames.sanitizeLoop_allowed fun c hc => absurd hc List.not_mem_nil
  have hpart := within_trimmedEnds (copied source.toList maxChars maxLen)
  rw [toList_sanitize]
  split_ifs with hnil
  · exact fallback_valid h
  · exact ⟨hnil, ((size_le_of_within hpart).trans hsizes.2).trans hlen, trimmedEnds_head _,
      fun c hc => hallowed c (hpart.subset hc)⟩

/-- A derived name stays inside its budget of characters, which has room for the name that
stands in. -/
theorem sanitize_length (source : String) {maxChars : ℕ} (maxLen : ℕ) (h : 6 ≤ maxChars) :
    (sanitize source maxChars maxLen).toList.length ≤ maxChars := by
  have hcopy : (copied source.toList maxChars maxLen).length ≤ maxChars := by
    by_cases hlen : (String.ofList ([] : List Char)).utf8ByteSize ≤ maxLen
    · exact (sanitizeLoop_sizes (Nat.zero_le _) hlen).1
    · exact absurd (by simp) hlen
  rw [toList_sanitize]
  split_ifs with hnil
  · exact h
  · exact (within_trimmedEnds _).length_le.trans hcopy

/-- A part of a valid name from its start is valid, if anything is left. -/
theorem Valid.part {name part : List Char} (h : Valid name) (hpart : part <+: name)
    (hne : part ≠ []) : Valid part where
  nonempty := hne
  short := (size_le_of_within hpart.isInfix).trans h.short
  undashed := by
    intro hdash
    obtain ⟨rest, rfl⟩ := hpart
    rw [← List.head?_append_of_ne_nil part hne] at hdash
    exact h.undashed hdash
  allowed := fun c hc => h.allowed c (hpart.subset hc)

end Tables

end Kerbridge.SamName

import Kerbridge.NameCandidates

/-!
# One case rule

What `sanitize` derives is its own key: it is valid, within both budgets, and neither
`sanitize` nor `fold` changes it. The key of a source and the name derived from it go by the
same mapping but for a capital sigma at the end of a word, which one of them maps by its
place and the other does not.
-/

namespace Kerbridge.SamName

open UnicodeText DirectorySource

section Ends

/-- The trims leave no dash and no dot at the end. -/
theorem trimmedEnds_last {cs : List Char} {c : Char} (h : c ∈ (trimmedEnds cs).getLast?) :
    c ≠ '.' ∧ c ≠ '-' := by
  obtain ⟨hne, hlast⟩ := List.mem_getLast?_eq_getLast h
  have hnot : ¬(c == '.' || c == '-') = true := by
    rw [hlast]
    exact List.rdropWhile_last_not _ _ hne
  rw [Bool.or_eq_true, beq_iff_eq, beq_iff_eq, not_or] at hnot
  exact hnot

/-- The trims take dots and dashes only. -/
theorem count_trimmedEnds {letter : Char} (hdot : letter ≠ '.') (hdash : letter ≠ '-')
    (cs : List Char) : (trimmedEnds cs).count letter = cs.count letter := by
  have hdropped : ∀ (p : Char → Bool), (p letter = false) → ∀ l : List Char,
      (l.dropWhile p).count letter = l.count letter := by
    intro p hp l
    induction l with
    | nil => rfl
    | cons c l ih =>
      by_cases hc : p c = true
      · have hne : c ≠ letter := by
          rintro rfl
          rw [hp] at hc
          cases hc
        rw [List.dropWhile_cons_of_pos hc, ih, List.count_cons_of_ne hne]
      · rw [List.dropWhile_cons_of_neg hc]
  have hend : ((letter == '.') || (letter == '-')) = false := by
    rw [Bool.or_eq_false_iff, beq_eq_false_iff_ne, beq_eq_false_iff_ne]
    exact ⟨hdot, hdash⟩
  rw [trimmedEnds, List.rdropWhile, List.count_reverse, hdropped _ hend, List.count_reverse,
    hdropped (fun c => c == '-') (beq_eq_false_iff_ne.mpr hdash)]

end Ends

section Rule

variable [UnicodeTables]

/-- What the tables say of letters that stand in names. -/
structure CaseTables : Prop where
  /-- The letters and digits of ASCII are classed as such. -/
  ascii : AsciiNames
  /-- A small letter or a digit of ASCII is its own lowercase. -/
  small : ∀ c : Char, c.isLower = true ∨ c.isDigit = true → UnicodeTables.toLowercase c = [c]
  /-- What a lowercase mapping gives is in lowercase. -/
  stable : ∀ c, ∀ d ∈ UnicodeTables.toLowercase c, UnicodeTables.toLowercase d = [d]
  /-- A capital sigma has a small one. -/
  sigma : UnicodeTables.toLowercase 'Σ' = ['σ']
  /-- The sigma at the end of a word is a letter. -/
  finalSigma : UnicodeTables.alphanumeric 'ς' = true

/-- A name of small letters is its own key. -/
theorem fold_settled (tables : CaseTables) {name : String} (h : Settled name.toList) :
    fold name = name := by
  have hkey : ∀ before cs, Settled cs → lowercaseFrom before cs = cs := by
    intro before cs
    induction cs generalizing before with
    | nil => exact fun _ => rfl
    | cons c cs ih =>
      intro hcs
      obtain ⟨hc, hrest⟩ := List.forall_mem_cons.mp hcs
      have hsigma : c ≠ 'Σ' := by
        rintro rfl
        rw [tables.sigma] at hc
        exact absurd hc.2 (by decide)
      rw [lowercaseFrom, if_neg hsigma, hc.2, ih _ hrest, List.singleton_append]
  rw [fold, toLowercase, hkey [] _ h, String.ofList_toList]

/-- The name that stands in is settled. -/
theorem fallback_settled (tables : CaseTables) : Settled fallback.toList := by
  intro c hc
  have hlower : (fallback.toList.all Char.isLower) = true := by decide
  exact ⟨(fallback_valid tables.ascii).allowed c hc,
    tables.small c (Or.inl (List.all_eq_true.mp hlower c hc))⟩

/-- Every derived name is settled, and trimmed. -/
theorem settled_sanitize (tables : CaseTables) (source : String) (maxChars maxLen : ℕ) :
    Settled (sanitize source maxChars maxLen).toList ∧
      trimmedEnds (sanitize source maxChars maxLen).toList =
        (sanitize source maxChars maxLen).toList := by
  have hallowed : ∀ c ∈ copied source.toList maxChars maxLen, allowed c = true :=
    PlannerNames.sanitizeLoop_allowed fun c hc => absurd hc List.not_mem_nil
  have hsmall : ∀ c ∈ copied source.toList maxChars maxLen,
      UnicodeTables.toLowercase c = [c] := by
    intro c hc
    rcases mem_sanitizeLoop hc with hout | hsource
    · cases hout
    · obtain ⟨d, _, hd⟩ := List.mem_flatMap.mp hsource
      exact tables.stable d c hd
  have hpart := within_trimmedEnds (copied source.toList maxChars maxLen)
  rw [toList_sanitize]
  split_ifs with hnil
  · exact ⟨fallback_settled tables, by decide⟩
  · exact ⟨fun c hc => ⟨hallowed c (hpart.subset hc), hsmall c (hpart.subset hc)⟩,
      trimmedEnds_idem _⟩

/-- A derived name stays inside its budget of bytes, which has room for the name that stands
in. -/
theorem sanitize_size (source : String) (maxChars : ℕ) {maxLen : ℕ} (h : 6 ≤ maxLen) :
    (sanitize source maxChars maxLen).utf8ByteSize ≤ maxLen := by
  have hcopy : (String.ofList (copied source.toList maxChars maxLen)).utf8ByteSize ≤ maxLen :=
    (sanitizeLoop_sizes (Nat.zero_le _) (by simp)).2
  have htext : (sanitize source maxChars maxLen).utf8ByteSize =
      (String.ofList (sanitize source maxChars maxLen).toList).utf8ByteSize := by
    rw [String.ofList_toList]
  rw [htext, toList_sanitize]
  split_ifs with hnil
  · exact le_trans (by decide) h
  · exact (size_le_of_within (within_trimmedEnds _)).trans hcopy

/-- **A derived name is a name**: it is valid, within both budgets, derived from itself and its
own key, and the trim left nothing at its ends that they may not have. -/
theorem sanitize_projects (tables : CaseTables) (source : String) {maxChars maxLen : ℕ}
    (hchars : 6 ≤ maxChars) (hshort : 6 ≤ maxLen) (hlong : maxLen ≤ maxBytes) :
    validate (sanitize source maxChars maxLen) = .ok () ∧
      (sanitize source maxChars maxLen).length ≤ maxChars ∧
      (sanitize source maxChars maxLen).utf8ByteSize ≤ maxLen ∧
      sanitize (sanitize source maxChars maxLen) maxChars maxLen =
        sanitize source maxChars maxLen ∧
      fold (sanitize source maxChars maxLen) = sanitize source maxChars maxLen ∧
      (sanitize source maxChars maxLen).toList.head? ≠ some '-' ∧
      ∀ c ∈ (sanitize source maxChars maxLen).toList.getLast?, c ≠ '.' ∧ c ≠ '-' := by
  have hvalid := sanitize_valid tables.ascii source maxChars hlong
  have hlength := sanitize_length source maxLen hchars
  have hsize := sanitize_size source maxChars hshort
  obtain ⟨hsettled, htrim⟩ := settled_sanitize tables source maxChars maxLen
  refine ⟨validate_ok_iff.mpr hvalid, hlength, hsize, ?_, fold_settled tables hsettled,
    hvalid.undashed, ?_⟩
  · exact sanitize_settled hsettled hvalid.nonempty hlength hsize htrim
  · intro c hc
    rw [← htrim] at hc
    exact trimmedEnds_last hc

end Rule

section Sigma

variable [UnicodeTables] {passed cs : List Char}

/-- A capital sigma that ends a word: a cased letter stands before it and none behind it, past
the characters that case ignores. -/
def EndsWord (passed cs : List Char) : Prop :=
  ∃ before rest, cs = before ++ 'Σ' :: rest ∧
    caseIgnorableThenCased (before.reverse ++ passed) = true ∧ caseIgnorableThenCased rest = false

/-- What a text becomes as a name: what is allowed of it, trimmed, or the name that stands
in. -/
def nameOf (cs : List Char) : String :=
  if trimmedEnds (cs.filter allowed) = [] then fallback
  else String.ofList (trimmedEnds (cs.filter allowed))

/-- A sigma that ends no word further on ends none here. -/
theorem EndsWord.tail {c : Char} (h : EndsWord (c :: passed) cs) : EndsWord passed (c :: cs) := by
  obtain ⟨before, rest, rfl, hbefore, hrest⟩ := h
  refine ⟨c :: before, rest, rfl, ?_, hrest⟩
  rw [List.reverse_cons, List.append_assoc, List.singleton_append]
  exact hbefore

/-- A text without a sigma that ends a word is mapped character by character. -/
theorem lowercaseFrom_eq (tables : CaseTables) (h : ¬EndsWord passed cs) :
    lowercaseFrom passed cs = cs.flatMap UnicodeTables.toLowercase := by
  induction cs generalizing passed with
  | nil => rfl
  | cons c cs ih =>
    rw [lowercaseFrom, List.flatMap_cons, ih fun hends => h hends.tail]
    split
    · rename_i hsigma
      subst hsigma
      rw [tables.sigma, if_neg]
      intro hends
      rw [Bool.and_eq_true, Bool.not_eq_true'] at hends
      exact h ⟨[], cs, rfl, hends.1, hends.2⟩
    · rfl

/-- The mapping of one character, by its place, has every final sigma that the one without has. -/
theorem count_lowercaseFrom_le (tables : CaseTables) (passed cs : List Char) :
    (cs.flatMap UnicodeTables.toLowercase).count 'ς' ≤ (lowercaseFrom passed cs).count 'ς' := by
  induction cs generalizing passed with
  | nil => exact le_refl _
  | cons c cs ih =>
    rw [lowercaseFrom, List.flatMap_cons, List.count_append, List.count_append]
    refine Nat.add_le_add ?_ (ih (c :: passed))
    split
    · rename_i hsigma
      subst hsigma
      rw [tables.sigma, show List.count 'ς' ['σ'] = 0 by decide]
      exact Nat.zero_le _
    · exact le_refl _

/-- A sigma that ends a word becomes a final one by its place alone. -/
theorem count_lowercaseFrom_lt (tables : CaseTables) (h : EndsWord passed cs) :
    (cs.flatMap UnicodeTables.toLowercase).count 'ς' < (lowercaseFrom passed cs).count 'ς' := by
  obtain ⟨before, rest, rfl, hbefore, hrest⟩ := h
  induction before generalizing passed with
  | nil =>
    have hmapped : caseIgnorableThenCased passed && !caseIgnorableThenCased rest := by
      rw [List.reverse_nil, List.nil_append] at hbefore
      rw [hbefore, hrest]
      rfl
    rw [List.nil_append, lowercaseFrom, if_pos rfl, if_pos hmapped, List.flatMap_cons,
      tables.sigma, List.count_append, List.count_append, show List.count 'ς' ['σ'] = 0 by decide,
      show List.count 'ς' ['ς'] = 1 by decide]
    have hle := count_lowercaseFrom_le tables ('Σ' :: passed) rest
    omega
  | cons c before ih =>
    rw [List.reverse_cons, List.append_assoc, List.singleton_append] at hbefore
    have hlt := ih hbefore
    rw [List.cons_append, lowercaseFrom, List.flatMap_cons, List.count_append, List.count_append]
    refine Nat.add_lt_add_of_le_of_lt ?_ hlt
    split
    · rename_i hsigma
      subst hsigma
      rw [tables.sigma, show List.count 'ς' ['σ'] = 0 by decide]
      exact Nat.zero_le _
    · exact le_refl _

/-- A name keeps the final sigmas of its text. -/
theorem count_nameOf (tables : CaseTables) (cs : List Char) :
    (nameOf cs).toList.count 'ς' = cs.count 'ς' := by
  have hallowed : allowed 'ς' = true := by
    rw [allowed, tables.finalSigma]
    rfl
  have hkept := @count_trimmedEnds 'ς' (by decide) (by decide) (cs.filter allowed)
  rw [List.count_filter hallowed] at hkept
  unfold nameOf
  split
  · rename_i hnil
    rw [← hkept, hnil]
    decide
  · rw [String.toList_ofList, hkept]

/-- A source that is not truncated is derived from what its mapping leaves. -/
theorem sanitize_eq_nameOf {source : String} {maxChars maxLen : ℕ}
    (hchars : ((source.toList.flatMap UnicodeTables.toLowercase).filter allowed).length ≤ maxChars)
    (hlen : (String.ofList ((source.toList.flatMap UnicodeTables.toLowercase).filter
      allowed)).utf8ByteSize ≤ maxLen) :
    sanitize source maxChars maxLen = nameOf (source.toList.flatMap UnicodeTables.toLowercase) := by
  have hcopied : copied source.toList maxChars maxLen =
      (source.toList.flatMap UnicodeTables.toLowercase).filter allowed := by
    rw [copied, sanitizeLoop_fits]
    · rw [List.nil_append]
    · rwa [List.nil_append]
    · rwa [List.nil_append]
  refine String.toList_injective ?_
  rw [toList_sanitize, hcopied, nameOf]
  split
  · rfl
  · rw [String.toList_ofList]

/-- **The derived name and the key of its source agree** exactly when no capital sigma of the
source ends a word; the derived name's own key is then the one of its source. -/
theorem sanitize_eq_fold_iff (tables : CaseTables) {source : String} {maxChars maxLen : ℕ}
    (hchars : ((source.toList.flatMap UnicodeTables.toLowercase).filter allowed).length ≤ maxChars)
    (hlen : (String.ofList ((source.toList.flatMap UnicodeTables.toLowercase).filter
      allowed)).utf8ByteSize ≤ maxLen) :
    (sanitize source maxChars maxLen = nameOf (fold source).toList ↔
      ¬EndsWord [] source.toList) ∧
    (fold (sanitize source maxChars maxLen) = nameOf (fold source).toList ↔
      ¬EndsWord [] source.toList) := by
  have hfold : (fold source).toList = lowercaseFrom [] source.toList := by
    rw [fold, toLowercase, String.toList_ofList]
  have hkey : fold (sanitize source maxChars maxLen) = sanitize source maxChars maxLen :=
    fold_settled tables (settled_sanitize tables source maxChars maxLen).1
  have hagree : sanitize source maxChars maxLen = nameOf (fold source).toList ↔
      ¬EndsWord [] source.toList := by
    rw [sanitize_eq_nameOf hchars hlen, hfold]
    constructor
    · intro heq hends
      have hcount := congrArg (fun name : String => name.toList.count 'ς') heq
      rw [count_nameOf tables, count_nameOf tables] at hcount
      exact absurd hcount (count_lowercaseFrom_lt tables hends).ne
    · intro hends
      rw [lowercaseFrom_eq tables hends]
  rw [hkey]
  exact ⟨hagree, hagree⟩

end Sigma

section Samples

/-- Tables that know three Greek letters besides ASCII. -/
@[reducible] def greekTables : UnicodeTables where
  toLowercase c :=
    if c = 'Σ' then ['σ'] else if c = 'Ο' then ['ο'] else if c = 'Δ' then ['δ'] else [c.toLower]
  alphanumeric c := c.isAlphanum || ['Σ', 'Ο', 'Δ', 'σ', 'ς', 'ο', 'δ'].contains c
  cased c := c.isAlpha || ['Σ', 'Ο', 'Δ', 'σ', 'ς', 'ο', 'δ'].contains c
  caseIgnorable _ := false
  nfc := id
  debug s := "\"" ++ s ++ "\""

/-- A lowercase of ASCII is the letter, or stands in ASCII. -/
theorem toLower_cases (c : Char) : c.toLower = c ∨ c.toLower.toNat < 128 := by
  unfold Char.toLower
  split
  · rename_i hupper
    have hlast : c.val.toNat ≤ 90 := UInt32.le_iff_toNat_le.mp hupper.2
    have hstep : ('a'.val - 'A'.val).toNat = 32 := by decide
    right
    change (c.val + ('a'.val - 'A'.val)).toNat < 128
    rw [UInt32.toNat_add, hstep]
    omega
  · exact Or.inl rfl

/-- A letter these tables know no small one of is mapped as in ASCII. -/
theorem greek_toLowercase {c : Char} (h : c ∉ ['Σ', 'Ο', 'Δ']) :
    @UnicodeTables.toLowercase greekTables c = [c.toLower] := by
  simp only [List.mem_cons, List.not_mem_nil, or_false, not_or] at h
  change (if c = 'Σ' then _ else _ : List Char) = _
  rw [if_neg h.1, if_neg h.2.1, if_neg h.2.2]

/-- Those tables are as the rule wants them. -/
theorem greek_caseTables : @CaseTables greekTables := by
  let _ := greekTables
  have hascii : ∀ c : Char, c.toNat < 128 → c ∉ ['Σ', 'Ο', 'Δ'] := by
    intro c hc hmem
    simp only [List.mem_cons, List.not_mem_nil, or_false] at hmem
    rcases hmem with rfl | rfl | rfl
    · exact absurd hc (by decide)
    · exact absurd hc (by decide)
    · exact absurd hc (by decide)
  refine ⟨?_, ?_, ?_, by decide, by decide⟩
  · intro c hc
    change (c.isAlphanum || _) = true
    rw [hc, Bool.true_or]
  · intro c hc
    have hrange : 97 ≤ c.val.toNat ∧ c.val.toNat ≤ 122 ∨ c.val.toNat ≤ 57 := by
      simp only [Char.isLower, Char.isDigit, Bool.and_eq_true, decide_eq_true_eq, ge_iff_le,
        UInt32.le_iff_toNat_le] at hc
      exact hc.imp id And.right
    have hshort : c.toNat < 128 := by
      change c.val.toNat < 128
      omega
    have hsame : c.toLower = c := by
      unfold Char.toLower
      rw [dif_neg]
      rintro ⟨hfirst, hlast⟩
      have hfirst' : 65 ≤ c.val.toNat := UInt32.le_iff_toNat_le.mp hfirst
      have hlast' : c.val.toNat ≤ 90 := UInt32.le_iff_toNat_le.mp hlast
      omega
    rw [greek_toLowercase (hascii c hshort), hsame]
  · intro c d hd
    by_cases hgreek : c ∈ ['Σ', 'Ο', 'Δ']
    · simp only [List.mem_cons, List.not_mem_nil, or_false] at hgreek
      rcases hgreek with rfl | rfl | rfl
      · cases List.mem_singleton.mp hd
        decide
      · cases List.mem_singleton.mp hd
        decide
      · cases List.mem_singleton.mp hd
        decide
    · rw [greek_toLowercase hgreek] at hd
      rw [List.mem_singleton.mp hd, greek_toLowercase, toLower_toLower]
      rcases toLower_cases c with hsame | hshort
      · rwa [hsame]
      · exact hascii _ hshort

/-- The rule at a source with a capital, a blank and a sigma that ends a word. -/
theorem sanitize_projects_word : @validate greekTables
    (@sanitize greekTables "ΟΔΟΣ -" 6 6) = .ok () ∧
      @fold greekTables (@sanitize greekTables "ΟΔΟΣ -" 6 6) =
        @sanitize greekTables "ΟΔΟΣ -" 6 6 := by
  have hprojects := @sanitize_projects greekTables greek_caseTables "ΟΔΟΣ -" 6 6 (by decide)
    (by decide) (by decide)
  exact ⟨hprojects.1, hprojects.2.2.2.2.1⟩

/-- The agreement at a word whose sigma stands in front. -/
theorem sanitize_eq_fold_front : @sanitize greekTables "ΣΟΔΟ" 20 64 =
    @nameOf greekTables (@fold greekTables "ΣΟΔΟ").toList := by
  let _ := greekTables
  refine ((sanitize_eq_fold_iff greek_caseTables (by decide) (by decide)).1).mpr ?_
  rintro ⟨before, rest, hsplit, hbefore, _⟩
  have hletters : "ΣΟΔΟ".toList = ['Σ', 'Ο', 'Δ', 'Ο'] := by decide
  rw [hletters] at hsplit
  cases before with
  | nil => exact absurd hbefore (by decide)
  | cons c before =>
    have hmem : 'Σ' ∈ ['Ο', 'Δ', 'Ο'] := by
      rw [(List.cons.inj hsplit).2]
      simp
    exact absurd hmem (by decide)

/-- The name of a word that ends in a sigma is not its key. -/
theorem sanitize_ne_fold : @sanitize greekTables "ΟΔΟΣ" 20 64 = "οδοσ" ∧
    @nameOf greekTables (@fold greekTables "ΟΔΟΣ").toList = "οδος" ∧
    @sanitize greekTables "ΟΔΟΣ" 20 64 ≠
      @nameOf greekTables (@fold greekTables "ΟΔΟΣ").toList := by
  decide

end Samples

end Kerbridge.SamName

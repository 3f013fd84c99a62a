import Mathlib
import Kerbridge.SanitizedNames

/-!
# Candidates that come through the rule again

A candidate is composed, lowercased, filtered and cut. Composition comes first and is not
repeated, so that dropping a character can leave two side by side that compose when the name
comes through the rule again.
-/

namespace Kerbridge.DirectorySource

open UnicodeText SamName

section Copies

variable [UnicodeTables]

/-- A name of characters that are kept as they are. -/
def Settled (cs : List Char) : Prop :=
  ∀ c ∈ cs, allowed c = true ∧ UnicodeTables.toLowercase c = [c]

/-- Characters that are kept as they are stay so when lowercased. -/
theorem Settled.lower {cs : List Char} (h : Settled cs) :
    cs.flatMap UnicodeTables.toLowercase = cs := by
  induction cs with
  | nil => rfl
  | cons c cs ih =>
    obtain ⟨hc, hcs⟩ := List.forall_mem_cons.mp h
    rw [List.flatMap_cons, hc.2, ih hcs]
    rfl

/-- Of allowed characters the copy takes the first ones. -/
theorem sanitizeLoop_prefix {maxChars maxLen : ℕ} {out cs : List Char}
    (h : ∀ c ∈ cs, allowed c = true) : sanitizeLoop maxChars maxLen out cs <+: out ++ cs := by
  fun_induction sanitizeLoop maxChars maxLen out cs with
  | case1 out => simp
  | case2 out c rest hdrop _ =>
    rw [h c List.mem_cons_self] at hdrop
    cases hdrop
  | case3 out c rest _ _ => exact List.prefix_append _ _
  | case4 out c rest _ _ ih =>
    have hrest := ih fun d hd => h d (List.mem_cons_of_mem _ hd)
    rwa [List.append_assoc, List.singleton_append] at hrest

/-- Allowed characters inside both budgets are all copied. -/
theorem sanitizeLoop_whole {maxChars maxLen : ℕ} {out cs : List Char}
    (h : ∀ c ∈ cs, allowed c = true) (hchars : (out ++ cs).length ≤ maxChars)
    (hlen : (String.ofList (out ++ cs)).utf8ByteSize ≤ maxLen) :
    sanitizeLoop maxChars maxLen out cs = out ++ cs := by
  have hkept : cs.filter allowed = cs := List.filter_eq_self.mpr h
  rw [← hkept] at hchars hlen
  rw [sanitizeLoop_fits hchars hlen, hkept]

/-- What is copied of characters that are kept as they are begins them. -/
theorem Settled.isPrefix_copied {cs : List Char} (h : Settled cs) (maxChars maxLen : ℕ) :
    copied cs maxChars maxLen <+: cs := by
  unfold copied
  rw [h.lower]
  exact sanitizeLoop_prefix fun c hc => (h c hc).1

omit [UnicodeTables] in
/-- The trims change nothing at ends that were trimmed. -/
theorem trimmedEnds_idem (cs : List Char) : trimmedEnds (trimmedEnds cs) = trimmedEnds cs := by
  have hfront : (trimmedEnds cs).dropWhile (· == '-') = trimmedEnds cs := by
    have hhead := trimmedEnds_head cs
    cases hcs : trimmedEnds cs with
    | nil => rfl
    | cons c rest =>
      rw [hcs, List.head?_cons, ne_eq, Option.some.injEq] at hhead
      rw [List.dropWhile_cons_of_neg (by simpa using hhead)]
  have hidem := List.rdropWhile_idempotent (fun c => c == '.' || c == '-')
    (cs.dropWhile (· == '-'))
  rw [trimmedEnds, hfront]
  exact hidem

/-- A trimmed name of settled characters inside both budgets is derived from itself. -/
theorem sanitize_settled {name : String} {maxChars maxLen : ℕ} (h : Settled name.toList)
    (hne : name.toList ≠ []) (hchars : name.toList.length ≤ maxChars)
    (hlen : name.utf8ByteSize ≤ maxLen) (htrim : trimmedEnds name.toList = name.toList) :
    sanitize name maxChars maxLen = name := by
  have hcopied : copied name.toList maxChars maxLen = name.toList := by
    unfold copied
    rw [h.lower]
    refine sanitizeLoop_whole (fun c hc => (h c hc).1) hchars ?_
    rwa [List.nil_append, String.ofList_toList]
  rw [← String.toList_inj, toList_sanitize, hcopied, htrim, if_neg hne]

end Copies

section Candidates

variable [UnicodeTables]

/-- What the tables and the normalization say of each other, as the standard has it. -/
structure NormalTables : Prop where
  /-- Composing what is composed changes nothing. -/
  nfc_nfc : ∀ t, UnicodeTables.nfc (UnicodeTables.nfc t) = UnicodeTables.nfc t
  /-- A part of a composed text is composed. -/
  nfc_part : ∀ part t, part <:+: t → UnicodeTables.nfc t = t → UnicodeTables.nfc part = part
  /-- A lowercase letter is its own lowercase. -/
  lower_lower : ∀ c, ∀ d ∈ UnicodeTables.toLowercase c, UnicodeTables.toLowercase d = [d]
  /-- The lowercase of a composed letter is letters that are composed, each for itself. -/
  lower_nfc : ∀ c, UnicodeTables.nfc [c] = [c] → ∀ d ∈ UnicodeTables.toLowercase c,
    UnicodeTables.nfc [d] = [d]
  /-- Lowercase letters of names, each composed for itself, compose to such letters. -/
  nfc_settled : ∀ t, Settled t → (∀ c ∈ t, UnicodeTables.nfc [c] = [c]) →
    Settled (UnicodeTables.nfc t)

/-- The characters of a source that survive: composed, lowercased, the allowed ones, as far as
both budgets reach, without the separators at the ends. -/
def survivors (s : String) : List Char :=
  trimmedEnds (copied (UnicodeTables.nfc s.toList) candidateChars maxBytes)

/-- The survivors of a source, side by side, are composed. -/
def Joined (s : String) : Prop := UnicodeTables.nfc (survivors s) = survivors s

/-- A candidate is what survives of its source. -/
theorem toList_candidate {s : String} {c : NameCandidate} (h : nameCandidate s = some c) :
    c.text.toList = survivors s ∧ survivors s ≠ [] := by
  have hderived : candidateText s ≠ fallback ∧ c.text = candidateText s := by
    unfold nameCandidate at h
    split_ifs at h with hfallback
    exact ⟨hfallback, by rw [← Option.some.inj h]⟩
  have hlist : (candidateText s).toList =
      if survivors s = [] then fallback.toList else survivors s := by
    unfold candidateText survivors
    rw [toList_sanitize, String.toList_ofList]
  rw [hderived.2, hlist]
  split_ifs at hlist ⊢ with hnil
  · exact absurd (String.toList_inj.mp hlist) hderived.1
  · exact ⟨rfl, hnil⟩

/-- The survivors of a source are settled, and each is composed for itself. -/
theorem NormalTables.survivors_settled (h : NormalTables) (s : String) :
    Settled (survivors s) ∧ ∀ c ∈ survivors s, UnicodeTables.nfc [c] = [c] := by
  have hcopied : ∀ c ∈ survivors s,
      c ∈ copied (UnicodeTables.nfc s.toList) candidateChars maxBytes :=
    fun c hc => (within_trimmedEnds _).subset hc
  have horigin : ∀ c ∈ survivors s, ∃ d ∈ UnicodeTables.nfc s.toList,
      c ∈ UnicodeTables.toLowercase d := by
    intro c hc
    exact List.mem_flatMap.mp ((mem_sanitizeLoop (hcopied c hc)).resolve_left List.not_mem_nil)
  constructor
  · intro c hc
    obtain ⟨d, _, hd⟩ := horigin c hc
    refine ⟨?_, h.lower_lower d c hd⟩
    exact PlannerNames.sanitizeLoop_allowed (fun c hc => absurd hc List.not_mem_nil) c
      (hcopied c hc)
  · intro c hc
    obtain ⟨d, hmem, hd⟩ := horigin c hc
    refine h.lower_nfc d (h.nfc_part [d] (UnicodeTables.nfc s.toList) ?_ (h.nfc_nfc _)) c hd
    obtain ⟨before, after, hat⟩ := List.append_of_mem hmem
    exact ⟨before, after, by rw [hat]; simp⟩

end Candidates

/-- A lowercase letter of ASCII is its own lowercase. -/
theorem toLower_toLower (c : Char) : c.toLower.toLower = c.toLower := by
  rw [Char.toLower, Char.toLower]
  grind

/-- Tables of ASCII say of each other what the standard has it. -/
theorem asciiTables_normal : @NormalTables asciiTables := by
  refine @NormalTables.mk asciiTables (fun _ => rfl) (fun _ _ _ _ => rfl) ?_
    (fun _ _ _ _ => rfl) (fun _ h _ => h)
  intro c d hd
  rw [List.mem_singleton.mp hd]
  exact congrArg List.singleton (toLower_toLower c)

/-- A name with a capital and a blank. -/
def plainName : @NameCandidate asciiTables :=
  @NameCandidate.mk asciiTables "annlee" ⟨"Ann Lee", by decide, by decide⟩

/-- A Hangul consonant and the vowel behind it compose to a syllable. -/
def composeJamo : List Char → List Char
  | [] => []
  | [c] => [c]
  | c :: d :: rest =>
    if c = '\u1100' ∧ d = '\u1161' then '\uAC00' :: composeJamo rest
    else c :: composeJamo (d :: rest)

/-- Tables with one Hangul syllable and its two letters. -/
@[reducible] def jamoTables : UnicodeTables :=
  { asciiTables with
    alphanumeric := fun c => c.isAlphanum || c == '\u1100' || c == '\u1161' || c == '\uAC00'
    nfc := composeJamo }

/-- The two letters, once the blank between them is dropped. -/
def jamoName : @NameCandidate jamoTables :=
  @NameCandidate.mk jamoTables "\u1100\u1161"
    ⟨"\u1100 \u1161", by decide, by decide⟩

end Kerbridge.DirectorySource

import Mathlib.Data.List.Forall2
import Kerbridge.SwitchTokens

/-!
# Taking winbind out of the name service switch

Line by line: the key of a line and what stands behind it, in the check, in the rewrite
and as the C library reads it. A file loses the source, and nothing else, exactly if on
each of its lines words can be dropped where tokens should go.
-/

namespace Kerbridge.NameSwitch

open UnicodeText Pieces

section Keys

/-- What stands behind a key. -/
theorem stripKey_iff {key : String} {line rest : List Char} :
    stripKey key line = some rest ↔ line = key.toList ++ rest := by
  unfold stripKey
  constructor
  · intro h
    split at h
    · rename_i hprefix
      obtain ⟨back, rfl⟩ := List.isPrefixOf_iff_prefix.mp hprefix
      rw [List.drop_left] at h
      rw [Option.some.inj h]
    · cases h
  · rintro rfl
    rw [if_pos (List.isPrefixOf_iff_prefix.mpr (List.prefix_append _ _)), List.drop_left]

/-- The two keys: a database of accounts and a colon. -/
theorem key_iff {line rest : List Char} :
    (line = "passwd:".toList ++ rest ∨ line = "group:".toList ++ rest) ↔
      ∃ database, ofAccounts database ∧ line = database ++ ':' :: rest := by
  constructor
  · rintro (rfl | rfl)
    · exact ⟨_, .inl rfl, rfl⟩
    · exact ⟨_, .inr rfl, rfl⟩
  · rintro ⟨_, rfl | rfl, rfl⟩
    · exact .inl rfl
    · exact .inr rfl

/-- The text of the sources stands behind a key. -/
theorem sourcesText_iff {line rest : List Char} :
    sourcesText line = some rest ↔ ∃ database, ofAccounts database ∧ line = database ++ ':' :: rest := by
  rw [← key_iff, sourcesText, Option.or_eq_some_iff, stripKey_iff, stripKey_iff]
  constructor
  · rintro (h | ⟨-, h⟩)
    · exact .inl h
    · exact .inr h
  · rintro (h | h)
    · exact .inl h
    · refine .inr ⟨?_, h⟩
      subst h
      rfl

/-- A line that lists sources has a key. -/
theorem isSourceLine_iff {code : List Char} :
    isSourceLine code = true ↔ ∃ database rest, ofAccounts database ∧ code = database ++ ':' :: rest := by
  have hkeys : isSourceLine code = true ↔
      ∃ rest, code = "passwd:".toList ++ rest ∨ code = "group:".toList ++ rest := by
    rw [isSourceLine, Bool.or_eq_true, List.isPrefixOf_iff_prefix, List.isPrefixOf_iff_prefix]
    constructor
    · rintro (⟨rest, h⟩ | ⟨rest, h⟩)
      · exact ⟨rest, .inl h.symm⟩
      · exact ⟨rest, .inr h.symm⟩
    · rintro ⟨rest, h | h⟩
      · exact .inl ⟨rest, h.symm⟩
      · exact .inr ⟨rest, h.symm⟩
  rw [hkeys]
  constructor
  · rintro ⟨rest, h⟩
    obtain ⟨database, hdatabase, hcode⟩ := key_iff.mp h
    exact ⟨database, rest, hdatabase, hcode⟩
  · rintro ⟨database, rest, hdatabase, hcode⟩
    exact ⟨rest, key_iff.mpr ⟨database, hdatabase, hcode⟩⟩

/-- A database of accounts is a word without a colon, and is not how the source begins. -/
theorem database_facts {database : List Char} (h : ofAccounts database) :
    Solid isWhitespace (database ++ [':']) ∧ ':' ∉ database ∧ '#' ∉ database ++ [':'] ∧
      '\n' ∉ database ++ [':'] ∧ database ≠ [] ∧ ∀ c ∈ database.head?, isBlank c = false ∧ c ≠ 'w' := by
  rcases h with rfl | rfl
  · exact ⟨solid_of_all (by decide), by decide, by decide, by decide, by decide,
      by rintro c ⟨⟩; exact ⟨by decide, by decide⟩⟩
  · exact ⟨solid_of_all (by decide), by decide, by decide, by decide, by decide,
      by rintro c ⟨⟩; exact ⟨by decide, by decide⟩⟩

/-- The key ends at the colon. -/
theorem keyEnd_eq {database : List Char} (h : ofAccounts database) (rest : List Char) :
    keyEnd (database ++ ':' :: rest) = database.length + 1 := by
  rcases h with rfl | rfl <;> rfl

/-- The source is a word behind the key if it is one of the line. -/
theorem words_of_code {database rest : List Char} (h : ofAccounts database)
    (hmem : winbind ∈ words (database ++ ':' :: rest)) : winbind ∈ words rest := by
  obtain ⟨hsolid, -, -, -, hne, hhead⟩ := database_facts h
  rw [List.append_cons] at hmem
  rcases mem_wordsBy_append hsolid hmem with hmem | ⟨v, hv⟩
  · exact hmem
  · cases database with
    | nil => exact absurd rfl hne
    | cons c database => exact absurd (List.cons.inj hv).1.symm (hhead c rfl).2

end Keys

section Lines

/-- A line is its text, with its end if it has one. -/
structure LineOf (line text : List Char) : Prop where
  free : '\n' ∉ text
  ended : line = text ∨ line = text ++ ['\n']

/-- The body of a line is its text. -/
theorem body_eq {line text : List Char} (h : LineOf line text) : body line = text := by
  have htext : text.rdropWhile (· == '\n') = text := by
    rw [List.rdropWhile_eq_self_iff]
    intro hne hlast
    exact h.free (beq_iff_eq.mp hlast ▸ List.getLast_mem hne)
  rcases h.ended with rfl | rfl
  · exact htext
  · rw [body, List.rdropWhile_concat_pos _ _ _ (by simp), htext]

/-- The lines of a file are lines. -/
theorem exists_lineOf {text line : List Char} (h : line ∈ splitInclusive '\n' text) :
    ∃ front, LineOf line front := by
  obtain ⟨-, front, hfree, hline⟩ := mem_splitInclusive h
  exact ⟨front, hfree, hline⟩

/-- A line's text is what it says and its comment. -/
theorem code_comment (line : List Char) : code line ++ comment line = body line :=
  List.takeWhile_append_dropWhile

/-- A text that says something and has a comment is read so. -/
theorem code_of_body {line text note : List Char} (h : body line = text ++ note)
    (htext : '#' ∉ text) (hnote : note = [] ∨ note.head? = some '#') :
    code line = text ∧ comment line = note := by
  have hall : ∀ c ∈ text, (c != '#') = true := by
    intro c hc
    rw [bne_iff_ne]
    rintro rfl
    exact htext hc
  rw [code, comment, h, List.takeWhile_append_of_pos hall, List.dropWhile_append_of_pos hall]
  rcases hnote with rfl | hnote
  · simp
  · cases note with
    | nil => simp at hnote
    | cons c note =>
      obtain rfl : c = '#' := by simpa using hnote
      simp

/-- A comment is nothing, or begins with its sign. -/
theorem comment_head (line : List Char) : comment line = [] ∨ (comment line).head? = some '#' := by
  unfold comment
  have hnot := List.head?_dropWhile_not (· != '#') (body line)
  cases hc : (body line).dropWhile (· != '#') with
  | nil => exact .inl rfl
  | cons c note =>
    rw [hc] at hnot
    have hsign : c = '#' := by simpa using hnot
    exact .inr (by rw [hsign]; rfl)

/-- A line reads from its database on. -/
theorem entry_of_code {line database rest : List Char} (h : ofAccounts database)
    (hcode : code line = database ++ ':' :: rest) : entry line = some (database, rest) := by
  obtain ⟨-, hcolon, -, -, hne, hhead⟩ := database_facts h
  have hall : ∀ c ∈ database, (c != ':') = true := by
    intro c hc
    rw [bne_iff_ne]
    rintro rfl
    exact hcolon hc
  have hstart : (code line).dropWhile isBlank = database ++ ':' :: rest := by
    rw [hcode]
    cases database with
    | nil => exact absurd rfl hne
    | cons c database =>
      rw [List.cons_append, List.dropWhile_cons_of_neg (by simp [(hhead c rfl).1])]
  rw [entry, hstart, List.takeWhile_append_of_pos hall, List.dropWhile_append_of_pos hall]
  simp

/-- A line that no blank precedes says its database, a colon, and the rest. -/
theorem code_of_entry {line database rest front : List Char} (hline : LineOf line front)
    (h : entry line = some (database, rest)) (hhead : ∀ c ∈ line.head?, isBlank c = false) :
    code line = database ++ ':' :: rest := by
  have hstart : (code line).dropWhile isBlank = code line := by
    cases hcode : code line with
    | nil => rfl
    | cons c cs =>
      have hbody := code_comment line
      rw [hcode, body_eq hline] at hbody
      have hc : line.head? = some c := by
        rcases hline.ended with rfl | rfl
        · rw [← hbody]
          rfl
        · rw [← hbody]
          rfl
      rw [List.dropWhile_cons_of_neg (by simp [hhead c hc])]
  have hcut := List.takeWhile_append_dropWhile (p := (· != ':')) (l := code line)
  have hnot := List.head?_dropWhile_not (· != ':') (code line)
  rw [entry, hstart] at h
  cases hback : (code line).dropWhile (· != ':') with
  | nil => simp [hback] at h
  | cons c back =>
    rw [hback] at h hnot hcut
    obtain ⟨rfl, rfl⟩ := Prod.mk.inj (Option.some.inj h)
    obtain rfl : c = ':' := by simpa using hnot
    exact hcut.symm

/-- Whether a line is rewritten: it lists sources, and has the source among its words. -/
def Rewritten (line : List Char) : Prop :=
  isSourceLine (code line) = true ∧ winbind ∈ words (code line)

/-- Blanks set a comment apart. -/
def pad (line : List Char) : List Char := if comment line ≠ [] then "  ".toList else []

/-- Any other line stays. -/
theorem rewriteLine_other {line : List Char} (h : ¬ Rewritten line) : rewriteLine line = line := by
  have hcond : (!isSourceLine (code line) || !(words (code line)).any (· == winbind)) = true := by
    by_contra hnot
    refine h ?_
    simpa [Rewritten] using hnot
  rw [rewriteLine, if_pos hcond]

/-- A line that is rewritten keeps its key, its comment and its end. -/
theorem rewriteLine_eq {line database rest : List Char} (h : ofAccounts database)
    (hcode : code line = database ++ ':' :: rest) (hmem : winbind ∈ words (code line)) :
    rewriteLine line = ((database ++ ':' :: keptText rest) ++ pad line) ++ comment line ++
      if line.getLast? = some '\n' then ['\n'] else [] := by
  have hsource : isSourceLine (code line) = true := isSourceLine_iff.mpr ⟨_, _, h, hcode⟩
  have hcond : ¬ (!isSourceLine (code line) || !(words (code line)).any (· == winbind)) = true := by
    simpa [hsource] using hmem
  have hcut : (code line).splitAt (keyEnd (code line)) = (database ++ [':'], rest) := by
    have hlength : (database ++ [':']).length = database.length + 1 := by simp
    rw [List.splitAt_eq, hcode, keyEnd_eq h, List.append_cons, ← hlength, List.take_left,
      List.drop_left]
  rw [rewriteLine, if_neg hcond, hcut, pad]
  by_cases hnote : comment line = []
  · simp only [hnote, ne_eq, not_true_eq_false, if_false, List.append_nil]
    split <;> simp
  · simp only [hnote, ne_eq, not_false_eq_true, if_true]
    split <;> simp

/-- What is kept is made of what was there, and of blanks. -/
theorem mem_keptText {rest : List Char} {c : Char} (h : c ∈ keptText rest) : c = ' ' ∨ c ∈ rest := by
  rw [keptText, List.mem_append] at h
  rcases h with h | h
  · exact .inr ((List.takeWhile_sublist _).subset h)
  · rcases mem_intercalate h with h | ⟨w, hw, hc⟩
    · exact .inl h
    · exact .inr (mem_of_mem_wordsBy (List.mem_filter.mp hw).1 hc)

/-- A line that is rewritten, with what it becomes. -/
structure RewrittenAs (line database rest : List Char) : Prop where
  accounts : ofAccounts database
  said : code line = database ++ ':' :: rest
  mem : winbind ∈ words rest
  lineOf : LineOf (rewriteLine line) (database ++ ':' :: keptText rest ++ pad line ++ comment line)
  saidAfter : code (rewriteLine line) = database ++ ':' :: (keptText rest ++ pad line)
  noted : comment (rewriteLine line) = comment line
  ended : (rewriteLine line).getLast? = some '\n' ↔ line.getLast? = some '\n'

/-- A line is rewritten to a line. -/
theorem rewritten_as {line front : List Char} (hline : LineOf line front) (h : Rewritten line) :
    ∃ database rest, RewrittenAs line database rest := by
  obtain ⟨hsource, hmem⟩ := h
  obtain ⟨database, rest, haccounts, hcode⟩ := isSourceLine_iff.mp hsource
  obtain ⟨-, -, hsharp, hend, hne, -⟩ := database_facts haccounts
  have hresult := rewriteLine_eq haccounts hcode hmem
  have hbody := code_comment line
  rw [body_eq hline] at hbody
  have hpad : ∀ c ∈ pad line, c = ' ' := by
    unfold pad
    split <;> simp
  -- What the line says holds no line end, as the line does not, and no comment.
  have hfree : '\n' ∉ (database ++ ':' :: keptText rest) ++ pad line ++ comment line := by
    intro hc
    have hnot : ∀ c ∈ front, c ≠ '\n' := by
      rintro c hc rfl
      exact hline.free hc
    rw [List.append_cons] at hc
    simp only [List.mem_append] at hc
    rcases hc with ((hc | hc) | hc) | hc
    · exact hend (List.mem_append.mpr hc)
    · rcases mem_keptText hc with hc | hc
      · exact absurd hc (by decide)
      · exact hnot '\n' (by rw [← hbody, hcode]; simp [hc]) rfl
    · exact absurd (hpad _ hc) (by decide)
    · exact hnot '\n' (by rw [← hbody]; simp [hc]) rfl
  have hquiet : '#' ∉ database ++ ':' :: keptText rest ++ pad line := by
    intro hc
    have hnot : '#' ∉ code line := by
      intro hc
      have htaken := List.mem_takeWhile_imp hc
      simp at htaken
    rw [List.append_cons] at hc
    simp only [List.mem_append] at hc
    rcases hc with (hc | hc) | hc
    · exact hsharp (List.mem_append.mpr hc)
    · rcases mem_keptText hc with hc | hc
      · exact absurd hc (by decide)
      · exact hnot (by rw [hcode]; simp [hc])
    · exact absurd (hpad _ hc) (by decide)
  have hline' : LineOf (rewriteLine line)
      ((database ++ ':' :: keptText rest) ++ pad line ++ comment line) := by
    refine ⟨hfree, ?_⟩
    rw [hresult]
    split
    · exact .inr rfl
    · exact .inl (List.append_nil _)
  obtain ⟨hcode', hcomment'⟩ := code_of_body (body_eq hline') hquiet (comment_head line)
  refine ⟨database, rest, haccounts, hcode, words_of_code haccounts (hcode ▸ hmem), hline', ?_,
    hcomment', ?_⟩
  · rw [hcode', List.append_assoc, List.cons_append]
  · rw [hresult]
    by_cases hlast : line.getLast? = some '\n'
    · rw [if_pos hlast, List.getLast?_concat]
      exact ⟨fun _ => hlast, fun _ => rfl⟩
    · rw [if_neg hlast, List.append_nil]
      constructor
      · intro hc
        exact absurd (List.mem_of_getLast? hc) hfree
      · intro hc
        exact absurd hc hlast

/-- What a line says does not depend on its end. -/
theorem code_ended {front : List Char} (h : '\n' ∉ front) :
    code (front ++ ['\n']) = code front ∧ comment (front ++ ['\n']) = comment front := by
  have hended : body (front ++ ['\n']) = front := body_eq ⟨h, .inr rfl⟩
  have hopen : body front = front := body_eq ⟨h, .inl rfl⟩
  rw [code, comment, code, comment, hended, hopen]
  exact ⟨rfl, rfl⟩

/-- Lines are rewritten one by one, and their ends stay. -/
theorem rewriteLine_keepsEnds : KeepsEnds '\n' rewriteLine where
  ended front h := by
    obtain ⟨hcode, hcomment⟩ := code_ended h
    have hlast : front.getLast? ≠ some '\n' := fun hlast => h (List.mem_of_getLast? hlast)
    by_cases hrewritten : Rewritten front
    · obtain ⟨database, rest, has⟩ := rewritten_as ⟨h, .inl rfl⟩ hrewritten
      rw [rewriteLine_eq has.accounts (hcode.trans has.said) (hcode ▸ hrewritten.2),
        rewriteLine_eq has.accounts has.said hrewritten.2, pad, pad, hcomment,
        List.getLast?_concat, if_pos rfl, if_neg hlast, List.append_nil]
    · have hnot : ¬ Rewritten (front ++ ['\n']) := by rwa [Rewritten, hcode]
      rw [rewriteLine_other hrewritten, rewriteLine_other hnot]
  inside front h := by
    by_cases hrewritten : Rewritten front
    · obtain ⟨database, rest, has⟩ := rewritten_as ⟨h, .inl rfl⟩ hrewritten
      have hlast : front.getLast? ≠ some '\n' := fun hlast => h (List.mem_of_getLast? hlast)
      rcases has.lineOf.ended with heq | heq
      · rw [heq]
        exact has.lineOf.free
      · exact absurd (has.ended.mp (by rw [heq, List.getLast?_concat])) hlast
    · rwa [rewriteLine_other hrewritten]
  ne_nil front hne := by
    by_cases hrewritten : Rewritten front
    · obtain ⟨database, rest, haccounts, hcode⟩ := isSourceLine_iff.mp hrewritten.1
      rw [rewriteLine_eq haccounts hcode hrewritten.2]
      simp
    · rwa [rewriteLine_other hrewritten]

/-- The words behind the key of a line that was rewritten are the others. -/
theorem words_kept_pad (line rest : List Char) :
    words (keptText rest ++ pad line) = (words rest).filter (· != winbind) := by
  rw [words, wordsBy_append_right (by unfold pad; split <;> simp [isWhitespace])]
  exact words_keptText rest

/-- A line is rewritten once. -/
theorem rewriteLine_again {line front : List Char} (hline : LineOf line front) :
    rewriteLine (rewriteLine line) = rewriteLine line := by
  by_cases h : Rewritten line
  · obtain ⟨database, rest, has⟩ := rewritten_as hline h
    refine rewriteLine_other fun hagain => ?_
    have hmem := hagain.2
    rw [has.saidAfter] at hmem
    have hafter := words_of_code has.accounts hmem
    rw [words_kept_pad] at hafter
    simp at hafter
  · rw [rewriteLine_other h, rewriteLine_other h]

end Lines

section Names

/-- A line lists the source behind its key. -/
def Named (line : List Char) : Prop :=
  ∃ database rest, ofAccounts database ∧ code line = database ++ ':' :: rest ∧ winbind ∈ words rest

/-- The source is found behind the key of what a line says. -/
theorem found_iff {said : List Char} :
    (match sourcesText said with
      | none => false
      | some rest => (words rest).any (· == winbind)) = true ↔
    ∃ database rest, ofAccounts database ∧ said = database ++ ':' :: rest ∧
      winbind ∈ words rest := by
  constructor
  · intro h
    cases hrest : sourcesText said with
    | none => simp [hrest] at h
    | some rest =>
      obtain ⟨database, haccounts, hsaid⟩ := sourcesText_iff.mp hrest
      rw [hrest] at h
      exact ⟨database, rest, haccounts, hsaid, by simpa using h⟩
  · rintro ⟨database, rest, haccounts, hsaid, hmem⟩
    rw [sourcesText_iff.mpr ⟨database, haccounts, hsaid⟩]
    simpa using hmem

/-- A carriage return behind what a line says makes no difference to what is found. -/
theorem found_return {said : List Char} :
    (∃ database rest, ofAccounts database ∧ said ++ ['\r'] = database ++ ':' :: rest ∧
      winbind ∈ words rest) ↔
    ∃ database rest, ofAccounts database ∧ said = database ++ ':' :: rest ∧ winbind ∈ words rest := by
  have hwords : ∀ rest, words (rest ++ ['\r']) = words rest :=
    fun rest => wordsBy_append_right (by simp [isWhitespace]) rest
  constructor
  · rintro ⟨database, rest, haccounts, hsaid, hmem⟩
    rcases List.eq_nil_or_concat rest with rfl | ⟨back, c, rfl⟩
    · simp [words] at hmem
    · rw [List.concat_eq_append] at hsaid hmem
      have hcut : said ++ ['\r'] = (database ++ ':' :: back) ++ [c] := by simpa using hsaid
      obtain ⟨hfront, hlast⟩ := List.append_inj' hcut rfl
      obtain rfl : c = '\r' := by simpa using hlast.symm
      exact ⟨database, back, haccounts, hfront, by rwa [hwords] at hmem⟩
  · rintro ⟨database, rest, haccounts, rfl, hmem⟩
    exact ⟨database, rest ++ ['\r'], haccounts, by simp, by rwa [hwords]⟩

/-- A line without its end, and without a carriage return in front of that. -/
def lineText (line : List Char) : List Char :=
  if line.getLast? = some '\n' then Ldif.dropReturn line.dropLast else line

/-- The lines of a text are the same, cut with their ends or without. -/
theorem lines_eq (text : List Char) : Ldif.lines text = (splitInclusive '\n' text).map lineText := by
  have hother : ∀ line : List Char, '\n' ∉ line → ∀ c ∈ line, (c == '\n') = false := by
    intro line h c hc
    rw [beq_eq_false_iff_ne]
    rintro rfl
    exact h hc
  induction text using lines_induction '\n' with
  | nil => rfl
  | last line h hne =>
    have hlast : line.getLast? ≠ some '\n' := fun hlast => h (List.mem_of_getLast? hlast)
    have hsplit : line.splitOn '\n' = [line] := List.splitOnP_eq_singleton (hother line h)
    rw [splitInclusive_last h hne, Ldif.lines, hsplit, List.map_singleton, lineText, if_neg hlast]
    simp [hne]
  | line line cs h ih =>
    have hsplit : (line ++ '\n' :: cs).splitOn '\n' = line :: cs.splitOn '\n' :=
      List.splitOnP_append_cons_of_forall_mem (hother line h) '\n' (by simp) cs
    have hne : cs.splitOn '\n' ≠ [] := List.splitOn_ne_nil '\n' cs
    have htext : lineText (line ++ ['\n']) = Ldif.dropReturn line := by
      rw [lineText, List.getLast?_concat, if_pos rfl, List.dropLast_concat]
    rw [splitInclusive_append h, List.map_cons, htext, ← ih, Ldif.lines, Ldif.lines, hsplit]
    simp only [List.dropLast_cons_of_ne_nil hne, List.map_cons, List.getLast?_cons_of_ne_nil hne,
      List.cons_append]
    split <;> rfl

/-- The source is found on a line exactly if the line lists it behind its key. -/
theorem found_lineText_iff {line front : List Char} (hline : LineOf line front) :
    (match sourcesText ((lineText line).takeWhile (· != '#')) with
      | none => false
      | some rest => (words rest).any (· == winbind)) = true ↔ Named line := by
  have hcode : code line = front.takeWhile (· != '#') := by rw [code, body_eq hline]
  rw [found_iff, Named, hcode]
  have hlast : front.getLast? ≠ some '\n' := fun hlast => hline.free (List.mem_of_getLast? hlast)
  rcases hline.ended with rfl | rfl
  · rw [lineText, if_neg hlast]
  · rw [lineText, List.getLast?_concat, if_pos rfl, List.dropLast_concat, Ldif.dropReturn]
    split
    · rename_i hreturn
      obtain ⟨back, rfl⟩ := List.getLast?_eq_some_iff.mp hreturn
      rw [List.dropLast_concat]
      -- In a comment the carriage return is not read at all.
      by_cases hsharp : ∀ c ∈ back, (c != '#') = true
      · rw [List.takeWhile_append_of_pos hsharp]
        have htake : back.takeWhile (· != '#') = back := by
          rw [List.takeWhile_eq_self_iff]
          exact hsharp
        rw [htake, show ['\r'].takeWhile (· != '#') = ['\r'] from rfl]
        exact found_return.symm
      · have hshort : (back.takeWhile (· != '#')).length ≠ back.length := by
          intro hlength
          exact hsharp (List.takeWhile_eq_self_iff.mp
            ((List.takeWhile_prefix _).eq_of_length hlength))
        rw [List.takeWhile_append, if_neg hshort]
    · exact Iff.rfl

/-- The check finds the source exactly if some line lists it behind its key. -/
theorem nsswitchNamesWinbind_iff (text : String) :
    nsswitchNamesWinbind text = true ↔ ∃ line ∈ splitInclusive '\n' text.toList, Named line := by
  rw [nsswitchNamesWinbind, lines_eq, List.any_map, List.any_eq_true]
  constructor
  · rintro ⟨line, hmem, hfound⟩
    obtain ⟨front, hline⟩ := exists_lineOf hmem
    exact ⟨line, hmem, (found_lineText_iff hline).mp hfound⟩
  · rintro ⟨line, hmem, hnamed⟩
    obtain ⟨front, hline⟩ := exists_lineOf hmem
    exact ⟨line, hmem, (found_lineText_iff hline).mpr hnamed⟩

end Names

section Files

/-- The lines of what a file becomes. -/
theorem lines_withoutWinbind (text : String) :
    splitInclusive '\n' (withoutWinbind text).toList =
      (splitInclusive '\n' text.toList).map rewriteLine := by
  rw [withoutWinbind, String.toList_ofList]
  exact splitInclusive_flatMap rewriteLine_keepsEnds text.toList

/-- A second time nothing changes. -/
theorem withoutWinbind_again (text : String) :
    withoutWinbind (withoutWinbind text) = withoutWinbind text := by
  have hagain : ((splitInclusive '\n' text.toList).map rewriteLine).flatMap rewriteLine =
      (splitInclusive '\n' text.toList).flatMap rewriteLine := by
    rw [List.flatMap_map]
    refine List.flatMap_congr fun line hmem => ?_
    obtain ⟨front, hline⟩ := exists_lineOf hmem
    exact rewriteLine_again hline
  rw [withoutWinbind, lines_withoutWinbind, hagain]
  rfl

/-- A line on which the source is not found stays. -/
theorem not_rewritten {line : List Char} (h : ¬ Named line) : ¬ Rewritten line := by
  rintro ⟨hsource, hmem⟩
  obtain ⟨database, rest, haccounts, hcode⟩ := isSourceLine_iff.mp hsource
  exact h ⟨database, rest, haccounts, hcode, words_of_code haccounts (hcode ▸ hmem)⟩

/-- A file in which the source is not found would stay as it is: that provisioning asks first
makes no difference. -/
theorem takeWinbindOut_eq (file : Option String) : takeWinbindOut file = file.map withoutWinbind := by
  cases file with
  | none => rfl
  | some text =>
    cases hnames : nsswitchNamesWinbind text with
    | true => simp [takeWinbindOut, hnames]
    | false =>
      have hstay : ∀ line ∈ splitInclusive '\n' text.toList, rewriteLine line = [line].flatten := by
        intro line hmem
        rw [List.flatten_singleton]
        refine rewriteLine_other (not_rewritten fun hnamed => ?_)
        have hfound := (nsswitchNamesWinbind_iff text).mpr ⟨line, hmem, hnamed⟩
        rw [hnames] at hfound
        cases hfound
      have hsame : withoutWinbind text = text := by
        rw [withoutWinbind, List.flatMap_congr hstay]
        simp [List.flatMap_id', flatten_splitInclusive]
      simp [takeWinbindOut, hnames, hsame]

/-- The tokens behind a key do not depend on blanks at the end. -/
theorem tokens_pad (cs line : List Char) : tokens (cs ++ pad line) = tokens cs := by
  have hpad : ∀ c ∈ pad line, isBlank c = true := by
    unfold pad
    split <;> simp [isBlank]
  rw [tokens, tokens, reading_words, reading_words, wordsBy_append_right hpad]

/-- What a rewritten line reads as. -/
theorem RewrittenAs.entries {line database rest : List Char} (h : RewrittenAs line database rest) :
    entry line = some (database, rest) ∧
      entry (rewriteLine line) = some (database, keptText rest ++ pad line) :=
  ⟨entry_of_code h.accounts h.said, entry_of_code h.accounts h.saidAfter⟩

/-- No blank precedes a key. -/
theorem head_of_code {line front database rest : List Char} (hline : LineOf line front)
    (h : ofAccounts database) (hcode : code line = database ++ ':' :: rest) :
    ∀ c ∈ line.head?, isBlank c = false := by
  obtain ⟨-, -, -, -, hne, hhead⟩ := database_facts h
  have hbody := code_comment line
  rw [hcode, body_eq hline] at hbody
  cases database with
  | nil => exact absurd rfl hne
  | cons d database =>
    have hd : line.head? = some d := by
      rcases hline.ended with rfl | rfl
      · rw [← hbody]
        rfl
      · rw [← hbody]
        rfl
    intro c hc
    rw [hd] at hc
    obtain rfl := Option.some.inj hc
    exact (hhead d rfl).1

/-- If a line becomes what it should and is not found afterwards, then words could be dropped
on it. -/
theorem droppable_of_takenOut {line front : List Char} (hline : LineOf line front)
    (htaken : TakenOut line (rewriteLine line)) (hnamed : ¬ Named (rewriteLine line)) :
    Droppable line := by
  intro database rest hentry haccounts
  constructor
  · intro hmem
    obtain ⟨_, _, left, hbefore, hafter, htokens, -, -⟩ :=
      htaken.listed ⟨database, rest, hentry, haccounts, hmem⟩
    rw [hentry] at hbefore
    obtain ⟨rfl, rfl⟩ := Prod.mk.inj (Option.some.inj hbefore)
    have hrewritten : Rewritten line := by
      by_contra hnot
      rw [rewriteLine_other hnot, hentry] at hafter
      obtain ⟨-, rfl⟩ := Prod.mk.inj (Option.some.inj hafter)
      exact notMem_without false (tokens rest) (htokens ▸ hmem)
    obtain ⟨_, _, has⟩ := rewritten_as hline hrewritten
    obtain ⟨hentry', hafter'⟩ := has.entries
    rw [hentry] at hentry'
    obtain ⟨rfl, rfl⟩ := Prod.mk.inj (Option.some.inj hentry')
    rw [hafter] at hafter'
    obtain ⟨-, rfl⟩ := Prod.mk.inj (Option.some.inj hafter')
    rw [tokens_pad] at htokens
    obtain ⟨hblanked, hapart⟩ := (tokens_keptText_iff (List.ne_nil_of_mem has.mem)).mp htokens
    exact ⟨head_of_code hline haccounts has.said, hrewritten.2, hblanked, hapart⟩
  · intro hmem hhead hword
    have hstay : rewriteLine line = line := by
      refine htaken.other ?_
      rintro ⟨_, _, hentry', -, hmem'⟩
      rw [hentry] at hentry'
      obtain ⟨rfl, rfl⟩ := Prod.mk.inj (Option.some.inj hentry')
      exact hmem hmem'
    rw [hstay] at hnamed
    exact hnamed ⟨database, rest, haccounts, code_of_entry hline hentry hhead, hword⟩

/-- If words can be dropped on a line, then it becomes what it should. -/
theorem takenOut_of_droppable {line front : List Char} (hline : LineOf line front)
    (h : Droppable line) : TakenOut line (rewriteLine line) := by
  by_cases hrewritten : Rewritten line
  · obtain ⟨database, rest, has⟩ := rewritten_as hline hrewritten
    obtain ⟨hbefore, hafter⟩ := has.entries
    have hlists : gone ∈ tokens rest := by
      by_contra hmem
      exact (h database rest hbefore has.accounts).2 hmem
        (head_of_code hline has.accounts has.said) has.mem
    obtain ⟨-, -, hblanked, hapart⟩ := (h database rest hbefore has.accounts).1 hlists
    have htokens := (tokens_keptText_iff (List.ne_nil_of_mem has.mem)).mpr ⟨hblanked, hapart⟩
    refine ⟨fun _ => ⟨database, rest, _, hbefore, hafter, ?_, has.noted, has.ended⟩, fun hnot => ?_⟩
    · rw [tokens_pad, htokens]
    · exact absurd ⟨database, rest, hbefore, has.accounts, hlists⟩ hnot
  · rw [rewriteLine_other hrewritten]
    refine ⟨?_, fun _ => rfl⟩
    rintro ⟨database, rest, hentry, haccounts, hmem⟩
    obtain ⟨hhead, hword, -, -⟩ := (h database rest hentry haccounts).1 hmem
    have hcode := code_of_entry hline hentry hhead
    exact absurd ⟨isSourceLine_iff.mpr ⟨database, rest, haccounts, hcode⟩, hword⟩ hrewritten

/-- If words can be dropped on a line, then it is not found afterwards. -/
theorem unnamed_of_droppable {line front : List Char} (hline : LineOf line front)
    (h : Droppable line) : ¬ Named (rewriteLine line) := by
  rintro ⟨database, rest, haccounts, hcode, hmem⟩
  by_cases hrewritten : Rewritten line
  · obtain ⟨_, before, has⟩ := rewritten_as hline hrewritten
    have hafter := has.entries.2
    rw [entry_of_code haccounts hcode] at hafter
    obtain ⟨-, rfl⟩ := Prod.mk.inj (Option.some.inj hafter)
    rw [words_kept_pad] at hmem
    simp at hmem
  · rw [rewriteLine_other hrewritten] at hcode
    have hdrop := h database rest (entry_of_code haccounts hcode) haccounts
    by_cases hlists : gone ∈ tokens rest
    · exact hrewritten ⟨isSourceLine_iff.mpr ⟨database, rest, haccounts, hcode⟩,
        (hdrop.1 hlists).2.1⟩
    · exact hdrop.2 hlists (head_of_code hline haccounts hcode) hmem

/-- A line that has become what it should does not list the source. -/
theorem TakenOut.unlisted {line result : List Char} (h : TakenOut line result) : ¬ Lists result := by
  intro hlists
  by_cases hline : Lists line
  · obtain ⟨_, rest, left, -, hafter, htokens, -, -⟩ := h.listed hline
    obtain ⟨_, _, hentry, -, hmem⟩ := hlists
    rw [hafter] at hentry
    obtain ⟨-, rfl⟩ := Prod.mk.inj (Option.some.inj hentry)
    exact notMem_without false (tokens rest) (htokens ▸ hmem)
  · rw [h.other hline] at hlists
    exact hline hlists

/-- A file loses the source and nothing else exactly if, on every line, words can be dropped
where tokens should go: the line's database stands first and the source apart from it, from
brackets, and from any white space that is no blank. -/
theorem outOf_iff (text : String) :
    OutOf text (withoutWinbind text) ↔
      ∀ line ∈ splitInclusive '\n' text.toList, Droppable line := by
  constructor
  · intro h line hmem
    obtain ⟨front, hline⟩ := exists_lineOf hmem
    have hlines := h.lines
    rw [lines_withoutWinbind, List.forall₂_map_right_iff, List.forall₂_same] at hlines
    refine droppable_of_takenOut hline (hlines line hmem) fun hnamed => ?_
    have hfound := (nsswitchNamesWinbind_iff _).mpr
      ⟨rewriteLine line, by rw [lines_withoutWinbind]; exact List.mem_map_of_mem hmem, hnamed⟩
    rw [h.unnamed] at hfound
    cases hfound
  · intro h
    have htaken : ∀ line ∈ splitInclusive '\n' text.toList, TakenOut line (rewriteLine line) := by
      intro line hmem
      obtain ⟨front, hline⟩ := exists_lineOf hmem
      exact takenOut_of_droppable hline (h line hmem)
    refine ⟨?_, ?_, ?_, withoutWinbind_again text⟩
    · rw [lines_withoutWinbind, List.forall₂_map_right_iff, List.forall₂_same]
      exact htaken
    · rw [lines_withoutWinbind]
      intro result hresult
      obtain ⟨line, hmem, rfl⟩ := List.mem_map.mp hresult
      exact (htaken line hmem).unlisted
    · rw [← Bool.not_eq_true, nsswitchNamesWinbind_iff, lines_withoutWinbind]
      rintro ⟨result, hresult, hnamed⟩
      obtain ⟨line, hmem, rfl⟩ := List.mem_map.mp hresult
      obtain ⟨front, hline⟩ := exists_lineOf hmem
      exact unnamed_of_droppable hline (h line hmem) hnamed

/-- Actions of the source come to belong to the source in front. -/
theorem actions_stay :
    ¬ OutOf "passwd: files winbind [NOTFOUND=return] sss\n"
      (withoutWinbind "passwd: files winbind [NOTFOUND=return] sss\n") := by
  intro h
  have hlines : List.Forall₂ TakenOut ["passwd: files winbind [NOTFOUND=return] sss\n".toList]
      ["passwd: files [NOTFOUND=return] sss\n".toList] := h.lines
  obtain ⟨htaken, -⟩ := List.forall₂_cons.mp hlines
  have hlists : Lists "passwd: files winbind [NOTFOUND=return] sss\n".toList :=
    ⟨"passwd".toList, " files winbind [NOTFOUND=return] sss".toList, by decide, .inl rfl, by decide⟩
  obtain ⟨_, _, _, hbefore, hafter, htokens, -, -⟩ := htaken.listed hlists
  have hrest : entry "passwd: files winbind [NOTFOUND=return] sss\n".toList =
      some ("passwd".toList, " files winbind [NOTFOUND=return] sss".toList) := by decide
  have hleft : entry "passwd: files [NOTFOUND=return] sss\n".toList =
      some ("passwd".toList, " files [NOTFOUND=return] sss".toList) := by decide
  obtain ⟨-, rfl⟩ := Prod.mk.inj (Option.some.inj (hrest.symm.trans hbefore))
  obtain ⟨-, rfl⟩ := Prod.mk.inj (Option.some.inj (hleft.symm.trans hafter))
  revert htokens
  decide

end Files

end Kerbridge.NameSwitch

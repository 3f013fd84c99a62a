import Kerbridge.NameSwitch

/-!
# Dropping a word where tokens should go

The two agree if the source stands alone among the words of a line, with no actions
behind it; and only then. A bracket that is left over comes to belong to the source in
front, and white space that is no blank goes missing from the tokens' texts.
-/

namespace Kerbridge.NameSwitch

open UnicodeText Pieces

/-- A blank is no bracket. -/
theorem bracket_of_blank {c : Char} (h : isBlank c = true) : c ≠ '[' ∧ c ≠ ']' := by
  constructor <;>
  · rintro rfl
    revert h
    decide

/-- A blank is white space. -/
theorem whitespace_of_blank {c : Char} (h : isBlank c = true) : isWhitespace c = true := by
  have hor : c = ' ' ∨ 9 ≤ c.toNat ∧ c.toNat ≤ 13 := by simpa [isBlank] using h
  rcases hor with rfl | hrange
  · decide
  · simp [isWhitespace, hrange]

/-- White space is no bracket. -/
theorem bracket_of_whitespace {c : Char} (h : isWhitespace c = true) : c ≠ '[' ∧ c ≠ ']' := by
  constructor <;>
  · rintro rfl
    revert h
    decide

/-- Any character but the one bracket that matters leaves the state as it is. -/
theorem inBrackets_same {inside : Bool} {c : Char} (hopen : ¬ (inside = false ∧ c = '['))
    (hclose : ¬ (inside = true ∧ c = ']')) (cs : List Char) :
    inBrackets inside (c :: cs) = inBrackets inside cs := by
  cases inside with
  | false =>
    have hc : (c == '[') = false := beq_eq_false_iff_ne.mpr fun h => hopen ⟨rfl, h⟩
    simp [inBrackets, hc]
  | true =>
    have hc : (c != ']') = true := bne_iff_ne.mpr fun h => hclose ⟨rfl, h⟩
    simp [inBrackets, hc]

/-- A blank leaves the state as it is. -/
theorem inBrackets_blank {c : Char} (h : isBlank c = true) (inside : Bool) (cs : List Char) :
    inBrackets inside (c :: cs) = inBrackets inside cs :=
  inBrackets_same (fun hc => (bracket_of_blank h).1 hc.2) (fun hc => (bracket_of_blank h).2 hc.2) cs

section Words

/-- Up to a blank, and from it on. -/
theorem reading_append_blank {c : Char} (h : isBlank c = true) (inside : Bool)
    (text w cs : List Char) :
    reading inside text (w ++ c :: cs) =
      reading inside text w ++ reading (inBrackets inside w) [] cs := by
  induction w generalizing inside text with
  | nil => simp [reading, h, inBrackets]
  | cons d w ih =>
    rw [List.cons_append, reading, reading]
    by_cases hblank : isBlank d = true
    · rw [if_pos hblank, if_pos hblank, ih, inBrackets_blank hblank, List.append_assoc]
    · rw [if_neg hblank, if_neg hblank]
      by_cases hopen : inside = false ∧ d = '['
      · rw [if_pos hopen, if_pos hopen, ih, List.append_assoc, List.cons_append]
        simp [inBrackets, hopen]
      · rw [if_neg hopen, if_neg hopen]
        by_cases hclose : inside = true ∧ d = ']'
        · rw [if_pos hclose, if_pos hclose, ih, List.append_assoc, List.cons_append]
          simp [inBrackets, hclose]
        · rw [if_neg hclose, if_neg hclose, ih, inBrackets_same hopen hclose]

/-- The tokens of words one by one. -/
def readWords (inside : Bool) : List (List Char) → List Token
  | [] => []
  | w :: ws => reading inside [] w ++ readWords (inBrackets inside w) ws

/-- A text is read word by word. -/
theorem reading_words (inside : Bool) (cs : List Char) :
    reading inside [] cs = readWords inside (wordsBy isBlank cs) := by
  induction cs using words_induction isBlank generalizing inside with
  | nil => rfl
  | separator c cs hc ih =>
    rw [wordsBy_cons hc, ← ih, reading, if_pos hc]
    rfl
  | word w cs hw hcs ih =>
    rw [wordsBy_word_append hw hcs, readWords]
    cases cs with
    | nil => rw [wordsBy_nil, List.append_nil, readWords, List.append_nil]
    | cons c cs =>
      have hc := hcs c rfl
      rw [reading_append_blank hc, ← ih, reading, if_pos hc]
      rfl

/-- Words are read up to a point, and from it on. -/
theorem readWords_append (inside : Bool) (vs ws : List (List Char)) :
    readWords inside (vs ++ ws) = readWords inside vs ++ readWords (vs.foldl inBrackets inside) ws := by
  induction vs generalizing inside with
  | nil => rfl
  | cons v vs ih => rw [List.cons_append, readWords, ih, readWords, List.append_assoc, List.foldl_cons]

/-- Text read outside brackets becomes a source as far as no bracket opens. -/
theorem reading_text {w : List Char} (h : Solid isBlank w) {text : List Char} (htext : text ≠ []) :
    reading false text w = .source (text ++ w.takeWhile (· != '[')) ::
      reading false [] (w.dropWhile (· != '[')) := by
  induction w generalizing text with
  | nil => simp [reading, flush, htext]
  | cons c w ih =>
    obtain ⟨hc, hw⟩ := List.forall_mem_cons.mp h
    by_cases hopen : c = '['
    · subst hopen
      simp [reading, flush, htext, isBlank]
    · have hstep : reading false text (c :: w) = reading false (text ++ [c]) w := by
        simp [reading, hc, hopen]
      rw [hstep, ih hw (by simp), List.takeWhile_cons_of_pos (by simp [hopen]),
        List.dropWhile_cons_of_pos (by simp [hopen]), List.append_assoc, List.singleton_append]

/-- Outside brackets a word begins with a source, if not with a bracket. -/
theorem reading_source {w : List Char} (h : IsWord isBlank w) (hw : w.head? ≠ some '[') :
    reading false [] w = .source (w.takeWhile (· != '[')) ::
      reading false [] (w.dropWhile (· != '[')) := by
  cases w with
  | nil => exact absurd rfl h.ne_nil
  | cons c w =>
    obtain ⟨hc, hsolid⟩ := List.forall_mem_cons.mp h.solid
    have hopen : c ≠ '[' := fun hc => hw (by rw [hc]; rfl)
    have hstep : reading false [] (c :: w) = reading false [c] w := by
      simp [reading, hc, hopen]
    rw [hstep, reading_text hsolid (by simp), List.takeWhile_cons_of_pos (by simp [hopen]),
      List.dropWhile_cons_of_pos (by simp [hopen]), List.singleton_append]

/-- A word that begins with a bracket opens one. -/
theorem reading_opened (w : List Char) :
    reading false [] ('[' :: w) = .opened :: reading true [] w := by
  simp [reading, flush, isBlank]

end Words

section Dropping

/-- The source that goes, as a token. -/
abbrev gone : Token := .source winbind

/-- Tokens are passed over up to a point, and from it on. -/
theorem without_append (d : Bool) (front back : List Token) :
    without d (front ++ back) = without d front ++ without (front.foldl dropped d) back := by
  induction front generalizing d with
  | nil => rfl
  | cons t front ih =>
    rw [List.cons_append, without, without, List.foldl_cons]
    cases hd : dropped d t with
    | true => rw [if_pos rfl, if_pos rfl, ih]
    | false => rw [if_neg (by simp), if_neg (by simp), ih, List.cons_append]

/-- What goes is gone. -/
theorem notMem_without (d : Bool) (l : List Token) : gone ∉ without d l := by
  induction l generalizing d with
  | nil => simp [without]
  | cons t l ih =>
    rw [without]
    cases hd : dropped d t with
    | true => simpa using ih true
    | false =>
      have hne : gone ≠ t := by
        rintro rfl
        simp [dropped] at hd
      simpa [hne] using ih false

/-- Any other token stays, where none goes. -/
theorem dropped_of_ne {t : Token} (h : gone ≠ t) : dropped false t = false := by
  cases t with
  | source name => exact beq_eq_false_iff_ne.mpr fun hname => h (by rw [hname])
  | opened => rfl
  | action text => rfl
  | closed => rfl

/-- Nothing goes where the source is not. -/
theorem without_self {l : List Token} (h : gone ∉ l) : without false l = l := by
  induction l with
  | nil => rfl
  | cons t l ih =>
    rw [List.mem_cons, not_or] at h
    rw [without, dropped_of_ne h.1, if_neg (by simp), ih h.2]

/-- The next source ends what goes with one. -/
theorem without_source {l : List Token} (h : ∀ t ∈ l.head?, ∃ name, t = .source name) :
    without true l = without false l := by
  cases l with
  | nil => rfl
  | cons t l =>
    obtain ⟨name, rfl⟩ := h t rfl
    rfl

/-- What is left while dropping begins with a source. -/
theorem head_without_true (l : List Token) :
    ∀ t ∈ (without true l).head?, ∃ name, t = .source name := by
  induction l with
  | nil => simp [without]
  | cons t l ih =>
    rw [without]
    cases hd : dropped true t with
    | true => simpa using ih
    | false =>
      cases t with
      | source name => simp
      | opened => simp [dropped] at hd
      | action text => simp [dropped] at hd
      | closed => simp [dropped] at hd

/-- How many brackets open. -/
def opens (l : List Token) : ℕ := l.count .opened

/-- One more token may be one more bracket. -/
theorem opens_cons (t : Token) (l : List Token) :
    opens (t :: l) = opens l + if t = .opened then 1 else 0 := by
  simp [opens, List.count_cons]

/-- No bracket comes to open. -/
theorem opens_without_le (d : Bool) (l : List Token) : opens (without d l) ≤ opens l := by
  induction l generalizing d with
  | nil => exact Nat.le_refl _
  | cons t l ih =>
    rw [without]
    cases hd : dropped d t with
    | true =>
      rw [if_pos rfl, opens_cons]
      exact (ih true).trans (Nat.le_add_right _ _)
    | false =>
      rw [if_neg (by simp), opens_cons, opens_cons]
      exact Nat.add_le_add_right (ih false) _

/-- A bracket that opens behind the source is missed. -/
theorem opens_without_opened (l : List Token) :
    opens (without true (.opened :: l)) ≠ opens (.opened :: l) := by
  have hle := opens_without_le true l
  have hstep : without true (.opened :: l) = without true l := rfl
  rw [hstep, opens_cons, if_pos rfl]
  omega

/-- Brackets open outside and close inside, where sources and actions are. -/
def Framed : Bool → List Token → Prop
  | _, [] => True
  | inside, .source _ :: l => inside = false ∧ Framed false l
  | inside, .opened :: l => inside = false ∧ Framed true l
  | inside, .action _ :: l => inside = true ∧ Framed true l
  | inside, .closed :: l => inside = true ∧ Framed false l

/-- The token read so far is where it may be. -/
theorem framed_flush {inside : Bool} {text : List Char} {l : List Token} (h : Framed inside l) :
    Framed inside (flush inside text ++ l) := by
  unfold flush
  by_cases htext : text = []
  · simpa [htext] using h
  · cases inside <;> simpa [htext, Framed] using h

/-- What is read is framed. -/
theorem framed_reading (inside : Bool) (text cs : List Char) :
    Framed inside (reading inside text cs) := by
  induction cs generalizing inside text with
  | nil =>
    have hflush := @framed_flush _ text _ (show Framed inside [] from trivial)
    rwa [List.append_nil] at hflush
  | cons c cs ih =>
    rw [reading]
    split
    · exact framed_flush (ih inside [])
    · split
      · rename_i hopen
        exact framed_flush ⟨hopen.1, ih true []⟩
      · split
        · rename_i hclose
          exact framed_flush ⟨hclose.1, ih false []⟩
        · exact ih inside (text ++ [c])

/-- Behind a token the rest is framed, and outside brackets behind a source. -/
theorem framed_tail {inside : Bool} {t : Token} {l : List Token} (h : Framed inside (t :: l)) :
    ∃ next, Framed next l ∧ (t = gone → next = false) := by
  cases t with
  | source name => exact ⟨false, h.2, fun _ => rfl⟩
  | opened => exact ⟨true, h.2, nofun⟩
  | action text => exact ⟨true, h.2, nofun⟩
  | closed => exact ⟨false, h.2, nofun⟩

/-- If no bracket is missed, then the source alone goes. -/
theorem without_filter {inside d : Bool} {l : List Token} (hframed : Framed inside l)
    (hd : d = true → inside = false) (hopens : opens (without d l) = opens l) :
    without d l = l.filter (· != gone) := by
  induction l generalizing inside d with
  | nil => rfl
  | cons t l ih =>
    obtain ⟨next, hrest, hnext⟩ := framed_tail hframed
    cases hdrop : dropped d t with
    | true =>
      have hgone : t = gone := by
        cases t with
        | source name => rw [show name = winbind from beq_iff_eq.mp hdrop]
        | opened =>
          obtain rfl : d = true := hdrop
          exact absurd hopens (opens_without_opened l)
        -- Brackets are open in front of these, so no source is just in front.
        | action text => exact absurd (hframed.1.symm.trans (hd hdrop)) (by simp)
        | closed => exact absurd (hframed.1.symm.trans (hd hdrop)) (by simp)
      subst hgone
      rw [without, hdrop, if_pos rfl] at hopens ⊢
      rw [opens_cons, if_neg (by simp), Nat.add_zero] at hopens
      rw [List.filter_cons_of_neg (by simp), ih hrest (fun _ => hnext rfl) hopens]
    | false =>
      have hne : t ≠ gone := by
        rintro rfl
        simp [dropped] at hdrop
      rw [without, hdrop, if_neg (by simp)] at hopens ⊢
      rw [opens_cons, opens_cons, Nat.add_right_cancel_iff] at hopens
      rw [List.filter_cons_of_pos (by simpa using hne), ih hrest (by simp) hopens]

end Dropping

section Apart

/-- The source as a word is one token, which tells the state of brackets. -/
theorem reading_winbind (inside : Bool) :
    reading inside [] winbind = [if inside then .action winbind else gone] ∧
      inBrackets inside winbind = inside := by
  cases inside <;> decide

/-- Nothing is sorted out where the source is not. -/
theorem filter_self {l : List Token} (h : gone ∉ l) : l.filter (· != gone) = l := by
  rw [List.filter_eq_self]
  intro t ht
  rw [bne_iff_ne]
  rintro rfl
  exact h ht

/-- Nothing goes with a source that is not there. -/
theorem foldl_dropped {l : List Token} (h : gone ∉ l) : l.foldl dropped false = false := by
  induction l with
  | nil => rfl
  | cons t l ih =>
    rw [List.mem_cons, not_or] at h
    rw [List.foldl_cons, dropped_of_ne h.1, ih h.2]

/-- Words behind which no bracket opens begin with a source. -/
theorem head_readWords {ws : List (List Char)} (hws : ∀ w ∈ ws, IsWord isBlank w)
    (h : ∀ v ∈ ws.head?, v.head? ≠ some '[') :
    ∀ t ∈ (readWords false ws).head?, ∃ name, t = .source name := by
  cases ws with
  | nil => simp [readWords]
  | cons w ws =>
    rw [readWords, reading_source (hws w (by simp)) (h w rfl)]
    simp

/-- Where the source stands apart, dropping its words drops its tokens. -/
theorem without_words {inside : Bool} {ws : List (List Char)} (hws : ∀ w ∈ ws, IsWord isBlank w)
    (h : Apart inside ws) :
    without false (readWords inside ws) = readWords inside (ws.filter (· != winbind)) := by
  induction ws generalizing inside with
  | nil => rfl
  | cons w ws ih =>
    obtain ⟨hw, hrest⟩ := h
    have htail := fun v hv => hws v (List.mem_cons_of_mem w hv)
    by_cases hwin : w = winbind
    · subst hwin
      rw [if_pos rfl] at hw
      obtain ⟨rfl, hnext⟩ := hw
      rw [(reading_winbind false).2] at hrest
      rw [List.filter_cons_of_neg (by simp), ← ih htail hrest, readWords, (reading_winbind false).1,
        (reading_winbind false).2]
      exact without_source (head_readWords htail hnext)
    · rw [if_neg hwin] at hw
      rw [List.filter_cons_of_pos (by simpa using hwin), readWords, readWords, without_append,
        without_self hw, foldl_dropped hw, ih htail hrest]

/-- As many tokens are left as dropping words leaves, or more. -/
theorem length_readWords_le {inside : Bool} {ws : List (List Char)}
    (h : gone ∉ readWords inside (ws.filter (· != winbind))) :
    (readWords inside (ws.filter (· != winbind))).length ≤
      ((readWords inside ws).filter (· != gone)).length := by
  induction ws generalizing inside with
  | nil => exact Nat.le_refl _
  | cons w ws ih =>
    by_cases hwin : w = winbind
    · subst hwin
      rw [List.filter_cons_of_neg (by simp)] at h ⊢
      rw [readWords, (reading_winbind inside).2, List.filter_append, List.length_append]
      exact (ih h).trans (Nat.le_add_left _ _)
    · rw [List.filter_cons_of_pos (by simpa using hwin), readWords, List.mem_append, not_or] at h
      rw [List.filter_cons_of_pos (by simpa using hwin), readWords, readWords, List.filter_append,
        filter_self h.1, List.length_append, List.length_append]
      exact Nat.add_le_add_left (ih h.2) _

/-- Behind tokens too no bracket is missed. -/
theorem opens_tail {d : Bool} {front back : List Token}
    (h : opens (without d (front ++ back)) = opens (front ++ back)) :
    opens (without (front.foldl dropped d) back) = opens back := by
  have hfront := opens_without_le d front
  have hback := opens_without_le (front.foldl dropped d) back
  rw [without_append] at h
  simp only [opens, List.count_append] at h hfront hback ⊢
  omega

/-- If dropping words drops the source and misses no bracket, then the source stands
apart. -/
theorem apart_of_words {inside d : Bool} {ws : List (List Char)}
    (hopens : opens (without d (readWords inside ws)) = opens (readWords inside ws))
    (hwords : (readWords inside ws).filter (· != gone) =
      readWords inside (ws.filter (· != winbind))) : Apart inside ws := by
  induction ws generalizing inside d with
  | nil => trivial
  | cons w ws ih =>
    have hfree : gone ∉ readWords inside ((w :: ws).filter (· != winbind)) := by
      rw [← hwords]
      simp
    have hback := opens_tail (show opens (without d (reading inside [] w ++ _)) = _ from hopens)
    by_cases hwin : w = winbind
    · subst hwin
      obtain ⟨hread, hstate⟩ := reading_winbind inside
      rw [List.filter_cons_of_neg (by simp)] at hwords hfree
      rw [readWords, hread, hstate] at hwords
      cases inside with
      | true =>
        -- The source is among the actions: it goes as a word, and stays as a token.
        have hle := length_readWords_le hfree
        have hone : ([Token.action winbind].filter (· != gone)).length = 1 := rfl
        rw [← hwords, List.filter_append, List.length_append] at hle
        exact absurd (hone ▸ hle) (by omega)
      | false =>
        rw [hread, hstate] at hback
        refine ⟨?_, ?_⟩
        · rw [if_pos rfl]
          refine ⟨rfl, ?_⟩
          rintro v hv hopen
          cases ws with
          | nil => simp at hv
          | cons u ws =>
            obtain rfl : u = v := by simpa using hv
            obtain ⟨rest, rfl⟩ : ∃ rest, u = '[' :: rest := by
              cases u with
              | nil => simp at hopen
              | cons c rest => exact ⟨rest, by rw [show c = '[' by simpa using hopen]⟩
            rw [readWords, reading_opened] at hback
            exact opens_without_opened _ hback
        · rw [hstate]
          exact ih hback hwords
    · rw [List.filter_cons_of_pos (by simpa using hwin)] at hwords hfree
      rw [readWords, List.mem_append, not_or] at hfree
      rw [readWords, readWords, List.filter_append, filter_self hfree.1, List.append_cancel_left_eq] at hwords
      refine ⟨?_, ih hback hwords⟩
      rw [if_neg hwin]
      exact hfree.1

end Apart

section Texts

/-- A bracket. -/
def isBracket (c : Char) : Bool := c == '[' || c == ']'

/-- The brackets of a text alone say how many open. -/
theorem opens_reading (inside : Bool) (text text' cs : List Char) :
    opens (reading inside text cs) = opens (reading inside text' (cs.filter isBracket)) := by
  have hflush : ∀ (inside : Bool) (text : List Char) (l : List Token),
      opens (flush inside text ++ l) = opens l := by
    intro inside text l
    unfold flush
    by_cases htext : text = []
    · simp [htext]
    · cases inside <;> simp [htext, opens_cons]
  fun_induction reading inside text cs generalizing text' with
  | case1 inside text =>
    have hnil := hflush inside text []
    have hnil' := hflush inside text' []
    rw [List.append_nil] at hnil hnil'
    rw [List.filter_nil, reading, hnil, hnil']
  | case2 inside text c cs hc ih =>
    have hfilter : isBracket c = false := by simp [isBracket, bracket_of_blank hc]
    rw [hflush, List.filter_cons_of_neg (by simp [hfilter])]
    exact ih text'
  | case3 inside text c cs hc hopen ih =>
    rw [hflush, List.filter_cons_of_pos (by rw [hopen.2]; decide), reading, if_neg hc, if_pos hopen,
      hflush, opens_cons, opens_cons, ih []]
  | case4 inside text c cs hc hopen hclose ih =>
    rw [hflush, List.filter_cons_of_pos (by rw [hclose.2]; decide), reading, if_neg hc,
      if_neg hopen, if_pos hclose, hflush, opens_cons, opens_cons, ih []]
  | case5 inside text c cs hc hopen hclose ih =>
    cases hbracket : isBracket c with
    | true =>
      rw [List.filter_cons_of_pos hbracket, reading, if_neg hc, if_neg hopen, if_neg hclose]
      exact ih _
    | false =>
      rw [List.filter_cons_of_neg (by simp [hbracket])]
      exact ih _

/-- The text of a token. -/
def Token.text : Token → List Char
  | .source name => name
  | .action text => text
  | .opened => []
  | .closed => []

/-- What is neither blank nor bracket is in the tokens' texts. -/
theorem texts_reading {q : Char → Bool} (hblank : ∀ c, isBlank c = true → q c = false)
    (hbracket : ∀ c, isBracket c = true → q c = false) (inside : Bool) (text cs : List Char) :
    ((reading inside text cs).flatMap Token.text).filter q = (text ++ cs).filter q := by
  have hflush : ∀ (inside : Bool) (text : List Char) (l : List Token),
      (flush inside text ++ l).flatMap Token.text = text ++ l.flatMap Token.text := by
    intro inside text l
    unfold flush
    by_cases htext : text = []
    · simp [htext]
    · cases inside <;> simp [htext, Token.text]
  have hdrop : ∀ (c : Char) (text cs : List Char), q c = false →
      (text ++ c :: cs).filter q = text.filter q ++ cs.filter q := by
    intro c text cs hc
    rw [List.filter_append, List.filter_cons_of_neg (by simp [hc])]
  fun_induction reading inside text cs with
  | case1 inside text =>
    have hnil := hflush inside text []
    rw [List.append_nil] at hnil
    rw [hnil]
    rfl
  | case2 inside text c cs hc ih =>
    rw [hflush, List.filter_append, ih, hdrop c text cs (hblank c hc)]
    rfl
  | case3 inside text c cs hc hopen ih =>
    rw [hflush, List.filter_append, List.flatMap_cons, Token.text, List.nil_append, ih,
      hdrop c text cs (hbracket c (by rw [hopen.2]; decide))]
    rfl
  | case4 inside text c cs hc hopen hclose ih =>
    rw [hflush, List.filter_append, List.flatMap_cons, Token.text, List.nil_append, ih,
      hdrop c text cs (hbracket c (by rw [hclose.2]; decide))]
    rfl
  | case5 inside text c cs hc hopen hclose ih => rw [ih, List.append_assoc, List.singleton_append]

/-- The words of what is kept. -/
theorem words_keptText (rest : List Char) :
    words (keptText rest) = (words rest).filter (· != winbind) := by
  have hgap : ∀ c ∈ rest.takeWhile isWhitespace, isWhitespace c = true :=
    fun c hc => List.mem_takeWhile_imp hc
  rw [keptText, words, wordsBy_append_left hgap]
  exact wordsBy_intercalate (by decide) fun w hw => isWord_of_mem (List.mem_filter.mp hw).1

/-- A map of words that is nothing at one of them is the same without it. -/
theorem flatMap_filter_ne {f : List Char → List Char} {w : List Char} (hf : f w = [])
    (ws : List (List Char)) : (ws.filter (· != w)).flatMap f = ws.flatMap f := by
  induction ws with
  | nil => rfl
  | cons v ws ih =>
    by_cases hv : v = w
    · subst hv
      rw [List.filter_cons_of_neg (by simp), List.flatMap_cons, hf, ih, List.nil_append]
    · rw [List.filter_cons_of_pos (by simpa using hv), List.flatMap_cons, List.flatMap_cons, ih]

/-- All brackets are kept. -/
theorem opens_keptText (rest : List Char) : opens (tokens (keptText rest)) = opens (tokens rest) := by
  have hspace : ∀ c, isWhitespace c = true → isBracket c = false := by
    intro c hc
    simp [isBracket, bracket_of_whitespace hc]
  have hbrackets : (keptText rest).filter isBracket = rest.filter isBracket := by
    rw [← filter_wordsBy hspace, ← filter_wordsBy hspace rest]
    exact (congrArg _ (words_keptText rest)).trans (flatMap_filter_ne (by decide) _)
  rw [tokens, tokens, opens_reading false [] [], hbrackets, ← opens_reading false [] []]

/-- If what is kept reads as it should, then the source alone has gone. -/
theorem tokens_filter {rest : List Char} (h : tokens (keptText rest) = without false (tokens rest)) :
    tokens (keptText rest) = (tokens rest).filter (· != gone) := by
  rw [h]
  exact without_filter (framed_reading false [] rest) (by simp)
    ((congrArg opens h).symm.trans (opens_keptText rest))

end Texts

section Spaces

/-- White space that is no blank. -/
def isOdd (c : Char) : Bool := isWhitespace c && !isBlank c

/-- If the source alone has gone, then no white space but blanks has: it would be missing
from a token's text. -/
theorem behind_of_filter {rest : List Char}
    (h : tokens (keptText rest) = (tokens rest).filter (· != gone)) :
    ∀ c ∈ rest.dropWhile isWhitespace, isWhitespace c = true → isBlank c = true := by
  have hblank : ∀ c, isBlank c = true → isOdd c = false := by
    intro c hc
    simp [isOdd, hc]
  have hbracket : ∀ c, isBracket c = true → isOdd c = false := by
    intro c hc
    rcases Bool.or_eq_true_iff.mp hc with hc | hc
    · rw [beq_iff_eq.mp hc]
      decide
    · rw [beq_iff_eq.mp hc]
      decide
  have hgone : ∀ l : List Token,
      ((l.filter (· != gone)).flatMap Token.text).filter isOdd =
        (l.flatMap Token.text).filter isOdd := by
    intro l
    induction l with
    | nil => rfl
    | cons t l ih =>
      by_cases ht : t = gone
      · subst ht
        rw [List.filter_cons_of_neg (by simp), ih, List.flatMap_cons, List.filter_append]
        rfl
      · rw [List.filter_cons_of_pos (by simpa using ht), List.flatMap_cons, List.flatMap_cons,
          List.filter_append, List.filter_append, ih]
  have hall : (keptText rest).filter isOdd = rest.filter isOdd := by
    have hkept := texts_reading hblank hbracket false [] (keptText rest)
    have hrest := texts_reading hblank hbracket false [] rest
    rw [List.nil_append] at hkept hrest
    rw [← hkept, ← hrest]
    exact (congrArg (fun l => (l.flatMap Token.text).filter isOdd) h).trans (hgone _)
  -- The kept words are joined by blanks, so all the rest has come from the gap.
  have hjoin : ([' '].intercalate ((words rest).filter (· != winbind))).filter isOdd = [] := by
    rw [List.filter_eq_nil_iff]
    intro c hc
    rcases mem_intercalate hc with rfl | ⟨w, hw, hcw⟩
    · decide
    · have hsolid := (isWord_of_mem (List.mem_filter.mp hw).1).solid c hcw
      simp [isOdd, hsolid]
  have hbehind : (rest.dropWhile isWhitespace).filter isOdd = [] := by
    conv_rhs at hall => rw [← List.takeWhile_append_dropWhile (p := isWhitespace) (l := rest)]
    rw [keptText, List.filter_append, List.filter_append, hjoin, List.append_cancel_left_eq] at hall
    exact hall.symm
  intro c hc hspace
  have hodd := List.filter_eq_nil_iff.mp hbehind c hc
  simpa [isOdd, hspace] using hodd

/-- A solid list stays solid for separators that are fewer. -/
theorem solid_blank {w : List Char} (h : Solid isWhitespace w) : Solid isBlank w := by
  intro c hc
  cases hblank : isBlank c with
  | false => rfl
  | true => exact absurd (whitespace_of_blank hblank) (by simp [h c hc])

/-- The first word of a text and what follows it, where white space behind the gap is
blanks. -/
structure FirstWord (rest w tail : List Char) : Prop where
  text : rest = rest.takeWhile isWhitespace ++ (w ++ tail)
  word : IsWord isWhitespace w
  words : words rest = w :: words tail
  blankWords : wordsBy isBlank tail = NameSwitch.words tail
  head : ∀ c ∈ tail.head?, isBlank c = true

/-- A text with words has a first one. -/
theorem exists_firstWord {rest : List Char} (hne : words rest ≠ [])
    (hbehind : ∀ c ∈ rest.dropWhile isWhitespace, isWhitespace c = true → isBlank c = true) :
    ∃ w tail, FirstWord rest w tail := by
  have hcut := List.takeWhile_append_dropWhile (p := isWhitespace) (l := rest)
  have hgap : ∀ c ∈ rest.takeWhile isWhitespace, isWhitespace c = true :=
    fun c hc => List.mem_takeWhile_imp hc
  have hwords : words rest = words (rest.dropWhile isWhitespace) := by
    conv_lhs => rw [← hcut]
    exact wordsBy_append_left hgap _
  have hstart := List.head?_dropWhile_not isWhitespace rest
  generalize rest.dropWhile isWhitespace = back at hcut hwords hstart hbehind
  induction back using words_induction isWhitespace with
  | nil => exact absurd hwords hne
  | separator c cs hc _ => simp [hc] at hstart
  | word w tail hw htail _ =>
    have htailBlank : ∀ c ∈ tail, isBlank c = isWhitespace c := by
      intro c hc
      cases hspace : isWhitespace c with
      | true => exact hbehind c (List.mem_append_right w hc) hspace
      | false => exact solid_blank (w := [c]) (by simpa [Solid] using hspace) c (by simp)
    refine ⟨w, tail, hcut.symm, hw, ?_, wordsBy_congr htailBlank, ?_⟩
    · rw [hwords]
      exact wordsBy_word_append hw htail
    · intro c hc
      rw [htailBlank c (List.mem_of_mem_head? hc), htail c hc]

/-- Text with white space in front is not the source. -/
theorem ne_winbind {glue : List Char} (h : ∀ c ∈ glue, isWhitespace c = true) (hne : glue ≠ [])
    (w : List Char) : glue ++ w ≠ winbind := by
  cases glue with
  | nil => exact absurd rfl hne
  | cons c glue =>
    intro heq
    have hc : c = 'w' := (List.cons.inj heq).1
    have hspace := h c (by simp)
    rw [hc] at hspace
    revert hspace
    decide

/-- The words of white space are not the source. -/
theorem filter_space {front : List Char} (h : ∀ c ∈ front, isWhitespace c = true) :
    (wordsBy isBlank front).filter (· != winbind) = wordsBy isBlank front := by
  rw [List.filter_eq_self]
  intro w hw
  rw [bne_iff_ne]
  rintro rfl
  have hspace := h 'w' (mem_of_mem_wordsBy hw (by decide))
  revert hspace
  decide

/-- What is kept has the blank words but the source, if white space is blanks where that
matters. -/
theorem blankWords_keptText {rest : List Char} (h : Blanked rest) (hne : words rest ≠ []) :
    wordsBy isBlank (keptText rest) = (wordsBy isBlank rest).filter (· != winbind) := by
  obtain ⟨w, tail, hfirst⟩ := exists_firstWord hne h.behind
  have hgap : ∀ c ∈ rest.takeWhile isWhitespace, isWhitespace c = true :=
    fun c hc => List.mem_takeWhile_imp hc
  have hword : ∀ v ∈ words tail, IsWord isBlank v := by
    intro v hv
    exact ⟨(isWord_of_mem hv).ne_nil, solid_blank (isWord_of_mem hv).solid⟩
  have hkept : ∀ v ∈ (words tail).filter (· != winbind), IsWord isBlank v :=
    fun v hv => hword v (List.mem_filter.mp hv).1
  have hw : IsWord isBlank w := ⟨hfirst.word.ne_nil, solid_blank hfirst.word.solid⟩
  by_cases hwin : w = winbind
  · -- The source is first: the gap ends in a blank, and goes on to end in one.
    subst hwin
    have hend := h.front (by rw [hfirst.words]; rfl)
    have hrest : wordsBy isBlank rest =
        wordsBy isBlank (rest.takeWhile isWhitespace) ++ winbind :: words tail := by
      conv_lhs => rw [hfirst.text]
      rw [wordsBy_append hend, wordsBy_word_append hw hfirst.head, hfirst.blankWords]
    rw [hrest, keptText, wordsBy_append hend, hfirst.words, List.filter_cons_of_neg (by simp),
      wordsBy_intercalate (by decide) hkept, List.filter_append, filter_space hgap,
      List.filter_cons_of_neg (by simp)]
  · obtain ⟨front, glue, hsplit, hend, hglue⟩ :=
      exists_solid_end isBlank (rest.takeWhile isWhitespace)
    have hjoined : IsWord isBlank (glue ++ w) := by
      refine ⟨by simp [hw.ne_nil], fun c hc => ?_⟩
      rcases List.mem_append.mp hc with hc | hc
      · exact hglue c hc
      · exact hw.solid c hc
    have hfront : ∀ c ∈ front, isWhitespace c = true :=
      fun c hc => hgap c (by rw [hsplit]; exact List.mem_append_left glue hc)
    have hnot : glue ++ w ≠ winbind := by
      by_cases hnil : glue = []
      · rwa [hnil, List.nil_append]
      · exact ne_winbind (fun c hc => hgap c (by rw [hsplit]; exact List.mem_append_right front hc))
          hnil w
    have hrest : wordsBy isBlank rest = wordsBy isBlank front ++ (glue ++ w) :: words tail := by
      conv_lhs => rw [hfirst.text]
      rw [hsplit, List.append_assoc, wordsBy_append hend, ← List.append_assoc,
        wordsBy_word_append hjoined hfirst.head, hfirst.blankWords]
    have hfilter : (words rest).filter (· != winbind) = w :: (words tail).filter (· != winbind) := by
      rw [hfirst.words, List.filter_cons_of_pos (by simpa using hwin)]
    rw [hrest, keptText, hfilter, hsplit, List.append_assoc, wordsBy_append hend,
      append_intercalate, wordsBy_intercalate (by decide) (List.forall_mem_cons.mpr ⟨hjoined, hkept⟩),
      List.filter_append, filter_space hfront, List.filter_cons_of_pos (by simpa using hnot)]

/-- Text without an opening bracket opens none. -/
theorem inBrackets_free {cs : List Char} (h : ∀ c ∈ cs, c ≠ '[') : inBrackets false cs = false := by
  induction cs with
  | nil => rfl
  | cons c cs ih =>
    obtain ⟨hc, hcs⟩ := List.forall_mem_cons.mp h
    rw [inBrackets_same (fun hopen => hc hopen.2) (by simp), ih hcs]

/-- Words without opening brackets open none. -/
theorem foldl_inBrackets {ws : List (List Char)} (h : ∀ w ∈ ws, ∀ c ∈ w, c ≠ '[') :
    ws.foldl inBrackets false = false := by
  induction ws with
  | nil => rfl
  | cons w ws ih =>
    obtain ⟨hw, hws⟩ := List.forall_mem_cons.mp h
    rw [List.foldl_cons, inBrackets_free hw, ih hws]

/-- A word joined to white space is read as a source that begins with the white space. -/
theorem readWords_glued {glue w : List Char} (hspace : ∀ c ∈ glue, isWhitespace c = true)
    (hne : glue ≠ []) (hsolid : Solid isBlank (glue ++ w)) (ws : List (List Char)) :
    readWords false ((glue ++ w) :: ws) = .source (glue ++ w.takeWhile (· != '[')) ::
      (reading false [] (w.dropWhile (· != '[')) ++ readWords (inBrackets false (glue ++ w)) ws) := by
  have hfree : ∀ c ∈ glue, (c != '[') = true :=
    fun c hc => bne_iff_ne.mpr (bracket_of_whitespace (hspace c hc)).1
  have hhead : (glue ++ w).head? ≠ some '[' := by
    cases glue with
    | nil => exact absurd rfl hne
    | cons c glue =>
      intro hc
      exact (bracket_of_whitespace (hspace c (by simp))).1 (by simpa using hc)
  rw [readWords, reading_source ⟨by simp [hne], hsolid⟩ hhead, List.takeWhile_append_of_pos hfree,
    List.dropWhile_append_of_pos hfree, List.cons_append]

/-- A word is the source up to a bracket: either all of it is, or a bracket opens behind. -/
theorem bracket_behind {w : List Char} (htake : w.takeWhile (· != '[') = winbind)
    (hne : w ≠ winbind) : ∃ back, w.dropWhile (· != '[') = '[' :: back := by
  have hcut := List.takeWhile_append_dropWhile (p := (· != '[')) (l := w)
  have hnot := List.head?_dropWhile_not (· != '[') w
  cases hback : w.dropWhile (· != '[') with
  | nil =>
    rw [hback, htake, List.append_nil] at hcut
    exact absurd hcut.symm hne
  | cons c back =>
    rw [hback] at hnot
    have hc : c = '[' := by simpa using hnot
    exact ⟨back, by rw [hc]⟩

/-- The words are read one by one, and the first begins with the source: the source goes. -/
theorem readWords_gone {w : List Char} (hw : IsWord isBlank w)
    (htake : w.takeWhile (· != '[') = winbind) (ws : List (List Char)) :
    ∃ l, readWords false (w :: ws) = gone :: l := by
  have hhead : w.head? ≠ some '[' := by
    cases w with
    | nil => simp
    | cons c w =>
      intro hc
      have hc : c = '[' := by simpa using hc
      subst hc
      revert htake
      simp [winbind]
  rw [readWords, reading_source hw hhead, htake]
  exact ⟨_, rfl⟩

/-- If what is kept reads as it should, then the source is not joined to the gap: it would be
a part of another source's name, which has changed. -/
theorem front_of_tokens {rest : List Char}
    (h : tokens (keptText rest) = without false (tokens rest))
    (hbehind : ∀ c ∈ rest.dropWhile isWhitespace, isWhitespace c = true → isBlank c = true)
    (hhead : (words rest).head? = some winbind) :
    ∀ c ∈ (rest.takeWhile isWhitespace).getLast?, isBlank c = true := by
  obtain ⟨w, tail, hfirst⟩ := exists_firstWord (by rintro hnil; simp [hnil] at hhead) hbehind
  obtain rfl : w = winbind := by
    rw [hfirst.words] at hhead
    simpa using hhead
  have hgap : ∀ c ∈ rest.takeWhile isWhitespace, isWhitespace c = true :=
    fun c hc => List.mem_takeWhile_imp hc
  obtain ⟨front, glue, hsplit, hend, hglue⟩ :=
    exists_solid_end isBlank (rest.takeWhile isWhitespace)
  by_cases hnil : glue = []
  · rw [hsplit, hnil, List.append_nil]
    exact hend
  exfalso
  have hspace : ∀ c ∈ glue, isWhitespace c = true :=
    fun c hc => hgap c (by rw [hsplit]; exact List.mem_append_right front hc)
  have hstate : (wordsBy isBlank front).foldl inBrackets false = false := by
    refine foldl_inBrackets fun v hv c hc => (bracket_of_whitespace (hgap c ?_)).1
    rw [hsplit]
    exact List.mem_append_left glue (mem_of_mem_wordsBy hv hc)
  have hsolid : ∀ v, Solid isBlank v → Solid isBlank (glue ++ v) := by
    intro v hv c hc
    rcases List.mem_append.mp hc with hc | hc
    · exact hglue c hc
    · exact hv c hc
  have hsource : Solid isBlank winbind := solid_of_all (by decide)
  have hword : ∀ v ∈ words tail, IsWord isBlank v := by
    intro v hv
    exact ⟨(isWord_of_mem hv).ne_nil, solid_blank (isWord_of_mem hv).solid⟩
  -- Both texts begin with the gap up to its last blank, and differ in the word behind.
  have hrest : tokens rest = readWords false (wordsBy isBlank front) ++
      .source (glue ++ winbind) :: readWords false (words tail) := by
    have hwords : wordsBy isBlank rest =
        wordsBy isBlank front ++ (glue ++ winbind) :: words tail := by
      conv_lhs => rw [hfirst.text]
      rw [hsplit, List.append_assoc, wordsBy_append hend, ← List.append_assoc,
        wordsBy_word_append ⟨by simp [hnil], hsolid winbind hsource⟩ hfirst.head, hfirst.blankWords]
    have hfree : inBrackets false (glue ++ winbind) = false := by
      refine inBrackets_free fun c hc => ?_
      rcases List.mem_append.mp hc with hc | hc
      · exact (bracket_of_whitespace (hspace c hc)).1
      · rintro rfl
        revert hc
        decide
    rw [tokens, reading_words, hwords, readWords_append, hstate,
      readWords_glued hspace hnil (hsolid winbind hsource), hfree]
    rfl
  have hkept : tokens (keptText rest) = readWords false (wordsBy isBlank front) ++
      readWords false (wordsBy isBlank
        (glue ++ [' '].intercalate ((words tail).filter (· != winbind)))) := by
    rw [tokens, reading_words, keptText, hsplit, List.append_assoc, wordsBy_append hend,
      readWords_append, hstate, hfirst.words, List.filter_cons_of_neg (by simp)]
  have hclean : gone ∉ readWords false (wordsBy isBlank front) := by
    intro hmem
    refine notMem_without false (tokens rest) ?_
    rw [← h, hkept]
    exact List.mem_append_left _ hmem
  have hother : dropped false (.source (glue ++ winbind)) = false :=
    dropped_of_ne fun heq => ne_winbind hspace hnil winbind (Token.source.inj heq).symm
  rw [hkept, hrest, without_append, without_self hclean, foldl_dropped hclean,
    List.append_cancel_left_eq, without, hother, if_neg (by simp)] at h
  cases hfilter : (words tail).filter (· != winbind) with
  | nil =>
    rw [hfilter, show [' '].intercalate ([] : List (List Char)) = [] from rfl,
      wordsBy_word ⟨by simpa using hnil, hsolid [] (by simp [Solid])⟩,
      readWords_glued hspace hnil (hsolid [] (by simp [Solid]))] at h
    have hname := Token.source.inj (List.cons.inj h).1
    rw [List.append_cancel_left_eq] at hname
    revert hname
    decide
  | cons v vs =>
    have hall : ∀ u ∈ v :: vs, IsWord isBlank u := by
      intro u hu
      rw [← hfilter] at hu
      exact hword u (List.mem_filter.mp hu).1
    obtain ⟨hv, hvs⟩ := List.forall_mem_cons.mp hall
    have hne : v ≠ winbind := by
      have hmem : v ∈ (words tail).filter (· != winbind) := by simp [hfilter]
      simpa using (List.mem_filter.mp hmem).2
    have hglued : IsWord isBlank (glue ++ v) := ⟨by simp [hnil], hsolid v hv.solid⟩
    rw [hfilter, append_intercalate,
      wordsBy_intercalate (by decide) (List.forall_mem_cons.mpr ⟨hglued, hvs⟩),
      readWords_glued hspace hnil hglued.solid] at h
    obtain ⟨hname, htokens⟩ := List.cons.inj h
    have htake := List.append_cancel_left (Token.source.inj hname)
    obtain ⟨back, hback⟩ := bracket_behind htake hne
    -- The first word behind is the source up to a bracket or to its end, so it goes.
    obtain ⟨l, hl⟩ : ∃ l, readWords false (words tail) = gone :: l := by
      cases htail : words tail with
      | nil => simp [htail] at hfilter
      | cons u us =>
        have hu : IsWord isBlank u := hword u (by simp [htail])
        by_cases huwin : u = winbind
        · subst huwin
          exact readWords_gone hu (by decide) us
        · rw [htail, List.filter_cons_of_pos (by simpa using huwin)] at hfilter
          rw [(List.cons.inj hfilter).1] at hu ⊢
          exact readWords_gone hu htake us
    rw [hback, reading_opened, hl] at htokens
    have hstart := head_without_true l .opened
      (by rw [show without true l = without false (gone :: l) from rfl, ← htokens]; simp)
    obtain ⟨name, hopened⟩ := hstart
    exact absurd hopened (by simp)

/-- What is kept reads as it should exactly if white space is blanks where that matters and
the source stands apart. -/
theorem tokens_keptText_iff {rest : List Char} (hne : words rest ≠ []) :
    tokens (keptText rest) = without false (tokens rest) ↔
      Blanked rest ∧ Apart false (wordsBy isBlank rest) := by
  have hread : ∀ cs : List Char, tokens cs = readWords false (wordsBy isBlank cs) :=
    fun cs => reading_words false cs
  constructor
  · intro h
    have hfilter := tokens_filter h
    have hbehind := behind_of_filter hfilter
    have hblanked : Blanked rest := ⟨hbehind, front_of_tokens h hbehind⟩
    have hopens : opens (without false (tokens rest)) = opens (tokens rest) :=
      (congrArg opens h).symm.trans (opens_keptText rest)
    rw [hread, hread rest, blankWords_keptText hblanked hne] at hfilter
    rw [hread rest] at hopens
    exact ⟨hblanked, apart_of_words hopens hfilter.symm⟩
  · rintro ⟨hblanked, hapart⟩
    rw [hread, hread rest, blankWords_keptText hblanked hne]
    exact (without_words (fun w hw => isWord_of_mem hw) hapart).symm

end Spaces

end Kerbridge.NameSwitch

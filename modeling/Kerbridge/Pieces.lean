import Mathlib.Data.List.DropRight
import Mathlib.Data.List.TakeWhile

/-!
# Texts in pieces

The words of a list between separators, and its lines, each with the separator that
ends it. Words are found again in any list that sets them apart, and lines are mapped
one by one where the map leaves their ends alone.
-/

namespace Kerbridge.Pieces

variable {α : Type*}

section Words

variable {p q : α → Bool}

/-- The words of a list: what stands between separators, unless that is nothing. -/
def wordsBy (p : α → Bool) (cs : List α) : List (List α) :=
  (cs.splitOnP p).filter fun w => !w.isEmpty

/-- A list without separators. -/
def Solid (p : α → Bool) (w : List α) : Prop := ∀ c ∈ w, p c = false

/-- A list is solid if a look at each of its elements says so. -/
theorem solid_of_all {w : List α} (h : (w.all fun c => !p c) = true) : Solid p w := by
  intro c hc
  simpa using List.all_eq_true.mp h c hc

/-- A word is solid, and is something. -/
structure IsWord (p : α → Bool) (w : List α) : Prop where
  ne_nil : w ≠ []
  solid : Solid p w

/-- Nothing has no words. -/
@[simp]
theorem wordsBy_nil : wordsBy p ([] : List α) = [] := rfl

/-- The words on both sides of a separator. -/
theorem wordsBy_append_cons {c : α} (h : p c = true) (xs ys : List α) :
    wordsBy p (xs ++ c :: ys) = wordsBy p xs ++ wordsBy p ys := by
  rw [wordsBy, List.splitOnP_append_cons xs ys h, List.filter_append]
  rfl

/-- A separator in front is passed over. -/
theorem wordsBy_cons {c : α} (h : p c = true) (cs : List α) :
    wordsBy p (c :: cs) = wordsBy p cs := by
  have hsplit := wordsBy_append_cons h [] cs
  rwa [wordsBy_nil] at hsplit

/-- A word alone is its only word. -/
theorem wordsBy_word {w : List α} (h : IsWord p w) : wordsBy p w = [w] := by
  rw [wordsBy, List.splitOnP_eq_singleton h.solid]
  simp [h.ne_nil]

/-- A word in front of a separator is the first. -/
theorem wordsBy_word_append {w cs : List α} (h : IsWord p w)
    (hcs : ∀ c ∈ cs.head?, p c = true) : wordsBy p (w ++ cs) = w :: wordsBy p cs := by
  cases cs with
  | nil => rw [List.append_nil, wordsBy_word h, wordsBy_nil]
  | cons c cs =>
    have hc := hcs c rfl
    rw [wordsBy_append_cons hc, wordsBy_word h, wordsBy_cons hc]
    rfl

/-- Separators in front are passed over. -/
theorem wordsBy_append_left {g : List α} (h : ∀ c ∈ g, p c = true) (cs : List α) :
    wordsBy p (g ++ cs) = wordsBy p cs := by
  induction g with
  | nil => rfl
  | cons c g ih =>
    obtain ⟨hc, hg⟩ := List.forall_mem_cons.mp h
    rw [List.cons_append, wordsBy_cons hc, ih hg]

/-- Separators alone hold no word. -/
theorem wordsBy_separators {g : List α} (h : ∀ c ∈ g, p c = true) : wordsBy p g = [] := by
  have happend := wordsBy_append_left h []
  rwa [List.append_nil, wordsBy_nil] at happend

/-- Separators behind are passed over. -/
theorem wordsBy_append_right {g : List α} (h : ∀ c ∈ g, p c = true) (cs : List α) :
    wordsBy p (cs ++ g) = wordsBy p cs := by
  cases g with
  | nil => rw [List.append_nil]
  | cons c g =>
    obtain ⟨hc, hg⟩ := List.forall_mem_cons.mp h
    rw [wordsBy_append_cons hc, wordsBy_separators hg, List.append_nil]

/-- The words in front of a place and behind it, if a separator is just in front. -/
theorem wordsBy_append {xs : List α} (h : ∀ c ∈ xs.getLast?, p c = true) (ys : List α) :
    wordsBy p (xs ++ ys) = wordsBy p xs ++ wordsBy p ys := by
  rcases List.eq_nil_or_concat xs with rfl | ⟨front, c, rfl⟩
  · rfl
  · have hc := h c (by simp)
    rw [List.concat_eq_append, List.append_assoc, List.singleton_append, wordsBy_append_cons hc,
      wordsBy_append_cons hc, wordsBy_nil, List.append_nil]

/-- A list up to its last separator, and what is behind. -/
theorem exists_solid_end (p : α → Bool) (xs : List α) :
    ∃ front back, xs = front ++ back ∧ (∀ c ∈ front.getLast?, p c = true) ∧ Solid p back := by
  refine ⟨xs.rdropWhile fun c => !p c, xs.rtakeWhile fun c => !p c,
    List.rdropWhile_append_rtakeWhile.symm, ?_, ?_⟩
  · intro c hc
    have hne : (xs.rdropWhile fun c => !p c) ≠ [] := by
      intro hnil
      simp [hnil] at hc
    have hlast := List.rdropWhile_last_not (fun c => !p c) xs hne
    rw [List.getLast?_eq_getLast_of_ne_nil hne, Option.mem_some] at hc
    rw [hc] at hlast
    simpa using hlast
  · intro c hc
    simpa using List.mem_rtakeWhile_imp hc

/-- Any list is nothing, or begins with a separator or with a word that ends there. -/
theorem words_induction {motive : List α → Prop} (p : α → Bool) (nil : motive [])
    (separator : ∀ c cs, p c = true → motive cs → motive (c :: cs))
    (word : ∀ w cs, IsWord p w → (∀ c ∈ cs.head?, p c = true) → motive cs → motive (w ++ cs)) :
    ∀ cs, motive cs := by
  intro cs
  induction hlen : cs.length using Nat.strong_induction_on generalizing cs with
  | _ n ih =>
    subst hlen
    cases cs with
    | nil => exact nil
    | cons c cs =>
      cases hc : p c with
      | true => exact separator c cs hc (ih _ (Nat.lt_succ_self _) cs rfl)
      | false =>
        -- The word that begins here goes as far as no separator stands.
        have hcut := List.takeWhile_append_dropWhile (p := fun d => !p d) (l := cs)
        have hw : IsWord p (c :: cs.takeWhile fun d => !p d) := by
          refine ⟨by simp, fun d hd => ?_⟩
          rcases List.mem_cons.mp hd with rfl | hd
          · exact hc
          · simpa using List.mem_takeWhile_imp hd
        have hend : ∀ d ∈ (cs.dropWhile fun d => !p d).head?, p d = true := by
          intro d hd
          have hnot := List.head?_dropWhile_not (fun d => !p d) cs
          rw [hd] at hnot
          simpa using hnot
        have hshort : (cs.dropWhile fun d => !p d).length < (c :: cs).length :=
          Nat.lt_succ_of_le (List.length_dropWhile_le _ _)
        have hmotive := word _ _ hw hend (ih _ hshort _ rfl)
        rwa [List.cons_append, hcut] at hmotive

/-- What is among the words is a word. -/
theorem isWord_of_mem {cs w : List α} (h : w ∈ wordsBy p cs) : IsWord p w := by
  induction cs using words_induction p with
  | nil => simp at h
  | separator c cs hc ih =>
    rw [wordsBy_cons hc] at h
    exact ih h
  | word v cs hv hcs ih =>
    rw [wordsBy_word_append hv hcs] at h
    rcases List.mem_cons.mp h with rfl | h
    · exact hv
    · exact ih h

/-- What is in a word is in the list. -/
theorem mem_of_mem_wordsBy {cs w : List α} (h : w ∈ wordsBy p cs) {c : α} (hc : c ∈ w) :
    c ∈ cs := by
  induction cs using words_induction p with
  | nil => simp at h
  | separator d cs hd ih =>
    rw [wordsBy_cons hd] at h
    exact List.mem_cons_of_mem d (ih h)
  | word v cs hv hcs ih =>
    rw [wordsBy_word_append hv hcs] at h
    rcases List.mem_cons.mp h with rfl | h
    · exact List.mem_append_left cs hc
    · exact List.mem_append_right v (ih h)

/-- Text joined in front of a list makes its first word longer, and leaves the others. -/
theorem mem_wordsBy_append {front cs w : List α} (h : Solid p front)
    (hw : w ∈ wordsBy p (front ++ cs)) : w ∈ wordsBy p cs ∨ ∃ v, w = front ++ v := by
  have hfront : ∀ v ∈ wordsBy p front, v = front := by
    intro v hv
    rw [wordsBy, List.splitOnP_eq_singleton h] at hv
    exact List.mem_singleton.mp (List.mem_filter.mp hv).1
  induction cs using words_induction p with
  | nil =>
    rw [List.append_nil] at hw
    exact .inr ⟨[], by rw [List.append_nil, hfront w hw]⟩
  | separator c cs hc _ =>
    rw [wordsBy_append_cons hc, List.mem_append] at hw
    rcases hw with hw | hw
    · exact .inr ⟨[], by rw [List.append_nil, hfront w hw]⟩
    · exact .inl (by rwa [wordsBy_cons hc])
  | word v cs hv hcs _ =>
    have hlong : IsWord p (front ++ v) := by
      refine ⟨by simp [hv.ne_nil], fun c hc => ?_⟩
      rcases List.mem_append.mp hc with hc | hc
      · exact h c hc
      · exact hv.solid c hc
    rw [← List.append_assoc, wordsBy_word_append hlong hcs, List.mem_cons] at hw
    rcases hw with rfl | hw
    · exact .inr ⟨v, rfl⟩
    · rw [wordsBy_word_append hv hcs]
      exact .inl (List.mem_cons_of_mem v hw)

/-- What is kept of a list without its separators is kept of its words. -/
theorem filter_wordsBy (hq : ∀ c, p c = true → q c = false) (cs : List α) :
    (wordsBy p cs).flatMap (List.filter q) = cs.filter q := by
  induction cs using words_induction p with
  | nil => rfl
  | separator c cs hc ih =>
    rw [wordsBy_cons hc, ih, List.filter_cons_of_neg (by simp [hq c hc])]
  | word w cs hw hcs ih =>
    rw [wordsBy_word_append hw hcs, List.flatMap_cons, ih, List.filter_append]

/-- The words of a list are the same for separators that are the same in it. -/
theorem wordsBy_congr {cs : List α} (h : ∀ c ∈ cs, p c = q c) : wordsBy p cs = wordsBy q cs := by
  have hsplit : cs.splitOnP p = cs.splitOnP q := by
    induction cs with
    | nil => rfl
    | cons c cs ih =>
      obtain ⟨hc, hcs⟩ := List.forall_mem_cons.mp h
      rw [List.splitOnP_cons_eq_if_modifyHead, List.splitOnP_cons_eq_if_modifyHead, hc, ih hcs]
  rw [wordsBy, wordsBy, hsplit]

/-- What is joined to the first of joined words. -/
theorem append_intercalate (sep front w : List α) (ws : List (List α)) :
    front ++ sep.intercalate (w :: ws) = sep.intercalate ((front ++ w) :: ws) := by
  cases ws with
  | nil => simp [List.intercalate]
  | cons v ws => simp [List.intercalate]

/-- What joined words are made of. -/
theorem mem_intercalate {c d : α} {ws : List (List α)} (h : d ∈ [c].intercalate ws) :
    d = c ∨ ∃ w ∈ ws, d ∈ w := by
  induction ws with
  | nil => simp [List.intercalate] at h
  | cons w ws ih =>
    cases ws with
    | nil =>
      have hmem : d ∈ w := by simpa [List.intercalate] using h
      exact .inr ⟨w, by simp, hmem⟩
    | cons v ws =>
      have hjoin : [c].intercalate (w :: v :: ws) = w ++ c :: [c].intercalate (v :: ws) := by
        simp [List.intercalate]
      rw [hjoin, List.mem_append, List.mem_cons] at h
      rcases h with h | h | h
      · exact .inr ⟨w, by simp, h⟩
      · exact .inl h
      · rcases ih h with h | ⟨u, hu, hd⟩
        · exact .inl h
        · exact .inr ⟨u, List.mem_cons_of_mem w hu, hd⟩

/-- Words joined by a separator. -/
theorem wordsBy_intercalate {c : α} (hc : p c = true) {ws : List (List α)}
    (h : ∀ w ∈ ws, IsWord p w) : wordsBy p ([c].intercalate ws) = ws := by
  induction ws with
  | nil => rfl
  | cons w ws ih =>
    obtain ⟨hw, hws⟩ := List.forall_mem_cons.mp h
    cases ws with
    | nil => simp [List.intercalate, wordsBy_word hw]
    | cons v ws =>
      have hjoin : [c].intercalate (w :: v :: ws) = w ++ c :: [c].intercalate (v :: ws) := by
        simp [List.intercalate]
      rw [hjoin, wordsBy_append_cons hc, wordsBy_word hw, ih hws]
      rfl

end Words

section Lines

variable [DecidableEq α] {e : α}

/-- `str::split_inclusive`: the lines of a list, each with its end. -/
def splitInclusive (e : α) : List α → List (List α)
  | [] => []
  | c :: cs =>
    if c = e then [c] :: splitInclusive e cs
    else
      match splitInclusive e cs with
      | [] => [[c]]
      | line :: rest => (c :: line) :: rest

/-- A line that ends is the first. -/
theorem splitInclusive_append {line : List α} (h : e ∉ line) (cs : List α) :
    splitInclusive e (line ++ e :: cs) = (line ++ [e]) :: splitInclusive e cs := by
  induction line with
  | nil => simp [splitInclusive]
  | cons c line ih =>
    rw [List.mem_cons, not_or] at h
    rw [List.cons_append, splitInclusive, if_neg (Ne.symm h.1), ih h.2]
    rfl

/-- A line that does not end is the only one. -/
theorem splitInclusive_last {line : List α} (h : e ∉ line) (hne : line ≠ []) :
    splitInclusive e line = [line] := by
  induction line with
  | nil => exact absurd rfl hne
  | cons c line ih =>
    rw [List.mem_cons, not_or] at h
    rw [splitInclusive, if_neg (Ne.symm h.1)]
    cases line with
    | nil => rfl
    | cons d line => rw [ih h.2 (by simp)]

/-- Any list is nothing, one line that does not end, or a line that ends and more lines. -/
theorem lines_induction {motive : List α → Prop} (e : α) (nil : motive [])
    (last : ∀ line, e ∉ line → line ≠ [] → motive line)
    (line : ∀ line cs, e ∉ line → motive cs → motive (line ++ e :: cs)) : ∀ cs, motive cs := by
  intro cs
  induction hlen : cs.length using Nat.strong_induction_on generalizing cs with
  | _ n ih =>
    subst hlen
    by_cases he : e ∈ cs
    · obtain ⟨front, back, rfl, hfront⟩ := List.eq_append_cons_of_mem he
      refine line front back hfront (ih _ ?_ back rfl)
      rw [List.length_append, List.length_cons]
      omega
    · by_cases hne : cs = []
      · subst hne
        exact nil
      · exact last cs he hne

/-- A map of lines that leaves their ends alone and makes no line nothing. -/
structure KeepsEnds (e : α) (f : List α → List α) : Prop where
  /-- The end stays where it is. -/
  ended : ∀ line, e ∉ line → f (line ++ [e]) = f line ++ [e]
  /-- No end comes to be inside. -/
  inside : ∀ line, e ∉ line → e ∉ f line
  /-- A line stays one. -/
  ne_nil : ∀ line, line ≠ [] → f line ≠ []

/-- The lines of what lines are mapped to are what they are mapped to. -/
theorem splitInclusive_flatMap {f : List α → List α} (hf : KeepsEnds e f) (cs : List α) :
    splitInclusive e ((splitInclusive e cs).flatMap f) = (splitInclusive e cs).map f := by
  induction cs using lines_induction e with
  | nil => rfl
  | last line h hne =>
    rw [splitInclusive_last h hne, List.flatMap_singleton, List.map_singleton,
      splitInclusive_last (hf.inside line h) (hf.ne_nil line hne)]
  | line line cs h ih =>
    rw [splitInclusive_append h, List.flatMap_cons, hf.ended line h, List.append_assoc,
      List.singleton_append, splitInclusive_append (hf.inside line h), ih, List.map_cons,
      hf.ended line h]

/-- The lines of a list, one behind the other, are the list. -/
theorem flatten_splitInclusive (cs : List α) : (splitInclusive e cs).flatten = cs := by
  induction cs using lines_induction e with
  | nil => rfl
  | last line h hne => rw [splitInclusive_last h hne, List.flatten_singleton]
  | line line cs h ih => rw [splitInclusive_append h, List.flatten_cons, ih, List.append_assoc]; rfl

/-- A line is solid but for its end. -/
theorem mem_splitInclusive {cs line : List α} (h : line ∈ splitInclusive e cs) :
    line ≠ [] ∧ ∃ front, e ∉ front ∧ (line = front ∨ line = front ++ [e]) := by
  induction cs using lines_induction e with
  | nil => simp [splitInclusive] at h
  | last l hl hne =>
    rw [splitInclusive_last hl hne, List.mem_singleton] at h
    subst h
    exact ⟨hne, line, hl, .inl rfl⟩
  | line l cs hl ih =>
    rw [splitInclusive_append hl, List.mem_cons] at h
    rcases h with rfl | h
    · exact ⟨by simp, l, hl, .inr rfl⟩
    · exact ih h

end Lines

end Kerbridge.Pieces

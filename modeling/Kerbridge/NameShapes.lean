import Kerbridge.PlannerNames
import Kerbridge.StoredIdentity

/-!
# The shape of written names

Which of the texts a plan builds names from read as one component of a name, and which
read only if the part of the subject in them does. A sanitized name holds nothing a
name is split at; the first characters of a subject are written as they are.
-/

namespace Kerbridge.PlannerNames

open UnicodeText DirectorySource SamName DistinguishedName RealmState StoredIdentity

/-- No character splits a name. -/
def Unsplit (cs : List Char) : Prop := ∀ c ∈ cs, c ≠ '\\' ∧ c ≠ ','

/-- Whether a text splits a name is checked character by character. -/
theorem unsplit_of_check {text : List Char}
    (h : (text.all fun c => c != '\\' && c != ',') = true) : Unsplit text := by
  simpa [Unsplit, List.all_eq_true] using h

/-- A text that is one component's value whatever is put around it. -/
structure Component (text : String) : Prop where
  unsplit : Unsplit text.toList
  inked : Inked text.toList

/-- Text that splits nothing may follow a component. -/
theorem Component.append {text more : String} (h : Component text) (hmore : Unsplit more.toList) :
    Component (text ++ more) := by
  refine ⟨?_, ?_⟩
  · intro c hc
    rw [String.toList_append, List.mem_append] at hc
    rcases hc with hc | hc
    · exact h.unsplit c hc
    · exact hmore c hc
  · obtain ⟨c, hc, hink⟩ := h.inked
    exact ⟨c, by rw [String.toList_append]; exact List.mem_append_left _ hc, hink⟩

/-- Text that splits nothing may stand before a component. -/
theorem Component.prepend {text before : String} (h : Component text)
    (hbefore : Unsplit before.toList) : Component (before ++ text) := by
  refine ⟨?_, ?_⟩
  · intro c hc
    rw [String.toList_append, List.mem_append] at hc
    rcases hc with hc | hc
    · exact hbefore c hc
    · exact h.unsplit c hc
  · obtain ⟨c, hc, hink⟩ := h.inked
    exact ⟨c, by rw [String.toList_append]; exact List.mem_append_right _ hc, hink⟩

/-- The characters of a trimmed text are characters of the text. -/
theorem mem_trim {s : String} {c : Char} (h : c ∈ (trim s).toList) : c ∈ s.toList := by
  unfold trim trimEndMatches trimStartMatches at h
  rw [String.toList_ofList, String.toList_ofList] at h
  exact (List.dropWhile_sublist _).subset ((List.rdropWhile_prefix _ _).sublist.subset h)

/-- A text trimmed to something shows something. -/
theorem inked_trim {s : String} (h : (trim s).isEmpty = false) : Inked (trim s).toList := by
  have hne : (trim s).toList ≠ [] := by
    intro hnil
    rw [String.toList_eq_nil_iff] at hnil
    rw [hnil] at h
    cases h
  have hlist : (trim s).toList =
      (trimStartMatches isWhitespace s).toList.rdropWhile isWhitespace := by
    rw [trim, trimEndMatches, String.toList_ofList]
  rw [hlist] at hne ⊢
  refine ⟨_, List.getLast_mem hne, ?_⟩
  simpa using List.rdropWhile_last_not isWhitespace _ hne

/-- A trimmed component is one. -/
theorem Component.trimmed {text : String} (h : Component text) : Component (trim text) :=
  ⟨fun c hc => h.unsplit c (mem_trim hc), inked_trim (trim_isEmpty_eq_false.mpr h.inked)⟩

/-- What survives of a display name is a component. -/
theorem safeName_component {value text : String} (h : safeName value = some text) :
    Component text := by
  obtain ⟨kept, hkept⟩ : ∃ kept, kept = trimStartMatches (· == '#')
    (trim (String.ofList (value.toList.map nameChar))) := ⟨_, rfl⟩
  have hshape : (if (trim kept).isEmpty then none else some (trim kept)) = some text := by
    rw [hkept]
    exact h
  by_cases hempty : (trim kept).isEmpty = true
  · rw [if_pos hempty] at hshape
    cases hshape
  · rw [if_neg hempty] at hshape
    rw [← Option.some.inj hshape]
    refine ⟨?_, inked_trim (by simpa using hempty)⟩
    intro c hc
    have hmem := mem_trim hc
    rw [hkept] at hmem
    rw [trimStartMatches, String.toList_ofList] at hmem
    have hmem' := mem_trim ((List.dropWhile_sublist _).subset hmem)
    rw [String.toList_ofList] at hmem'
    obtain ⟨d, _, hd⟩ := List.mem_map.mp hmem'
    rw [← hd]
    unfold nameChar
    by_cases hreserved : (isControl d || nameReserved.contains d) = true
    · rw [if_pos hreserved]
      exact ⟨by decide, by decide⟩
    · rw [if_neg hreserved]
      refine ⟨?_, ?_⟩
      · rintro rfl
        exact hreserved (by decide)
      · rintro rfl
        exact hreserved (by decide)

section Tables

variable [UnicodeTables]

/-- The tables class no separator and no white space with letters and digits. -/
structure LetterTables : Prop where
  unsplit : ∀ c, UnicodeTables.alphanumeric c = true → c ≠ '\\' ∧ c ≠ ','
  inked : ∀ c, UnicodeTables.alphanumeric c = true → isWhitespace c = false

/-- What a login name may hold splits nothing and shows. -/
theorem LetterTables.allowed (h : LetterTables) {c : Char} (hc : allowed c = true) :
    (c ≠ '\\' ∧ c ≠ ',') ∧ isWhitespace c = false := by
  simp only [SamName.allowed, Bool.or_eq_true, beq_iff_eq] at hc
  rcases hc with ((hc | rfl) | rfl) | rfl
  · exact ⟨h.unsplit c hc, h.inked c hc⟩
  · decide
  · decide
  · decide

/-- The copy holds only what is allowed. -/
theorem sanitizeLoop_allowed {maxChars maxLen : ℕ} {out cs : List Char}
    (h : ∀ c ∈ out, allowed c = true) :
    ∀ c ∈ sanitizeLoop maxChars maxLen out cs, allowed c = true := by
  fun_induction sanitizeLoop maxChars maxLen out cs with
  | case1 out => exact h
  | case2 out c rest _ ih => exact ih h
  | case3 out c rest _ _ => exact h
  | case4 out c rest hc _ ih =>
    refine ih ?_
    intro d hd
    rcases List.mem_append.mp hd with hd | hd
    · exact h d hd
    · rw [List.mem_singleton.mp hd]
      simpa using hc

omit [UnicodeTables] in
/-- The name that stands in is a component. -/
theorem fallback_component : Component fallback := by
  refine ⟨unsplit_of_check rfl, 'u', ?_, ?_⟩
  · decide
  · decide

/-- A sanitized login name is a component. -/
theorem sanitize_component (h : LetterTables) (source : String) (maxChars maxLen : ℕ) :
    Component (sanitize source maxChars maxLen) := by
  unfold sanitize
  dsimp only
  split
  · exact fallback_component
  · rename_i hne
    have hallowed : ∀ c ∈ (trimEndMatches (fun c => c == '.' || c == '-') (trimStartMatches (· == '-')
        (String.ofList (sanitizeLoop maxChars maxLen []
          (source.toList.flatMap UnicodeTables.toLowercase))))).toList, allowed c = true := by
      intro c hc
      rw [trimEndMatches, trimStartMatches, String.toList_ofList, String.toList_ofList,
        String.toList_ofList] at hc
      have hloop := (List.dropWhile_sublist _).subset
        ((List.rdropWhile_prefix _ _).sublist.subset hc)
      exact sanitizeLoop_allowed (fun c hc => absurd hc List.not_mem_nil) c hloop
    refine ⟨fun c hc => (h.allowed (hallowed c hc)).1, ?_⟩
    obtain ⟨c, hc⟩ := List.exists_mem_of_ne_nil _ (fun hnil => hne
      (String.isEmpty_iff.mpr (String.toList_eq_nil_iff.mp hnil)))
    exact ⟨c, hc, (h.allowed (hallowed c hc)).2⟩

/-- A candidate for a login name is a component. -/
theorem NameCandidate.component (h : LetterTables) (candidate : NameCandidate) :
    Component candidate.text := by
  obtain ⟨text, s, hs, _⟩ := candidate
  dsimp only
  rw [← hs]
  exact sanitize_component h _ _ _

/-- A component that reads still does when more is written to it. -/
theorem normalizeComponent_append {component : List Char}
    (h : (normalizeComponent component).isSome = true) (more : List Char) :
    (normalizeComponent (component ++ more)).isSome = true := by
  obtain ⟨attr, value, heq, hattr, hname, c, hc, hink⟩ := normalizeComponent_isSome.mp h
  refine normalizeComponent_isSome.mpr ⟨attr, value ++ more, ?_, hattr, hname, ?_⟩
  · rw [heq, List.append_assoc, List.cons_append]
  · exact ⟨c, List.mem_append_left _ hc, hink⟩

/-- Text that ends a component, whatever stands before it. -/
structure Tail (post : List Char) : Prop where
  unsplit : Unsplit post
  unnamed : '=' ∉ post
  inked : Inked post

omit [UnicodeTables] in
/-- Whether a text ends a component is checked character by character. -/
theorem tail_of_check {post : List Char}
    (hall : (post.all fun c => c != '\\' && c != ',' && c != '=') = true)
    (hany : (post.any fun c => !isWhitespace c) = true) : Tail post := by
  simp only [List.all_eq_true, Bool.and_eq_true, bne_iff_ne] at hall
  refine ⟨fun c hc => (hall c hc).1, fun hc => (hall _ hc).2 rfl, ?_⟩
  obtain ⟨c, hc, hink⟩ := List.any_eq_true.mp hany
  exact ⟨c, hc, by simpa using hink⟩

/-- Which text ends a component does not decide whether it reads. -/
theorem Tail.swap {post post' : List Char} (hpost : Tail post) (hpost' : Tail post')
    {current : List Char} (h : (normalizeComponent (current ++ post)).isSome = true) :
    (normalizeComponent (current ++ post')).isSome = true := by
  obtain ⟨attr, value, heq, hattr, hname, _⟩ := normalizeComponent_isSome.mp h
  have hmem : '=' ∈ current := by
    have hin : '=' ∈ current ++ post := by
      rw [heq]
      exact List.mem_append_right _ List.mem_cons_self
    exact (List.mem_append.mp hin).resolve_right hpost.unnamed
  obtain ⟨attr', value', heq', hattr'⟩ := List.eq_append_cons_of_mem hmem
  have hsame : attr' = attr := by
    have hboth : attr' ++ '=' :: (value' ++ post) = attr ++ '=' :: value := by
      rw [← heq, heq', List.append_assoc, List.cons_append]
    have hfirst := congrArg (List.takeWhile (· != '=')) hboth
    have hne : ∀ {l : List Char}, '=' ∉ l → ∀ c ∈ l, (c != '=') = true := by
      intro l hl c hc
      simpa using fun heq : c = '=' => hl (heq ▸ hc)
    rw [List.takeWhile_append_of_pos (hne hattr'), List.takeWhile_append_of_pos (hne hattr)] at hfirst
    simpa using hfirst
  obtain ⟨c, hc, hink⟩ := hpost'.inked
  refine normalizeComponent_isSome.mpr ⟨attr, value' ++ post', ?_, hattr, hname, ?_⟩
  · rw [heq', hsame, List.append_assoc, List.cons_append]
  · exact ⟨c, List.mem_append_right _ hc, hink⟩

/-- The components of a text read, the first of them begun before it. -/
def ReadsOn (current cs : List Char) : Prop :=
  ∃ xs, componentLoop [] current cs = some xs ∧ ∀ x ∈ xs, (normalizeComponent x).isSome = true

/-- A comma ends the component that was begun. -/
theorem readsOn_comma {current rest : List Char} : ReadsOn current (',' :: rest) ↔
    (normalizeComponent current).isSome = true ∧ ReadsOn [] rest := by
  unfold ReadsOn
  rw [componentLoop_comma, componentLoop_out]
  cases componentLoop [] [] rest with
  | none => simp
  | some xs => simp

/-- An escape belongs to the component that was begun. -/
theorem readsOn_escape {current rest : List Char} {d : Char} :
    ReadsOn current ('\\' :: d :: rest) ↔ ReadsOn (current ++ ['\\', d]) rest := by
  unfold ReadsOn
  rw [componentLoop_escape]

/-- Text that splits nothing belongs to the component that was begun. -/
theorem readsOn_plain {current text rest : List Char} (h : Unsplit text) :
    ReadsOn current (text ++ rest) ↔ ReadsOn (current ++ text) rest := by
  unfold ReadsOn
  rw [componentLoop_plain h]

/-- At the end the component that was begun is to read. -/
theorem readsOn_nil {current : List Char} :
    ReadsOn current [] ↔ (normalizeComponent current).isSome = true := by
  unfold ReadsOn
  rw [componentLoop]
  simp

/-- Text that splits nothing reads with the component that was begun. -/
theorem readsOn_unsplit {current text : List Char} (h : Unsplit text) :
    ReadsOn current text ↔ (normalizeComponent (current ++ text)).isSome = true := by
  have hplain : ReadsOn current (text ++ []) ↔ ReadsOn (current ++ text) [] := readsOn_plain h
  rw [List.append_nil] at hplain
  rw [hplain, readsOn_nil]

/-- Whether a text reads depends neither on what its first component begins with nor on
what its last one ends in, when the one begun instead reads at least as often. -/
theorem readsOn_swap {post post' : List Char} (hpost : Tail post) (hpost' : Tail post')
    {q current current' : List Char}
    (hcurrent : ∀ more, (normalizeComponent (current ++ more)).isSome = true →
      (normalizeComponent (current' ++ more)).isSome = true)
    (h : ReadsOn current (q ++ post)) : ReadsOn current' (q ++ post') := by
  have hmore : ∀ {a b : List Char}, (∀ more, (normalizeComponent (a ++ more)).isSome = true →
      (normalizeComponent (b ++ more)).isSome = true) → ∀ text more,
        (normalizeComponent (a ++ text ++ more)).isSome = true →
          (normalizeComponent (b ++ text ++ more)).isSome = true := by
    intro a b hab text more
    rw [List.append_assoc, List.append_assoc]
    exact hab (text ++ more)
  have hgen : ∀ (out : List (List Char)) (current q : List Char), ∀ current',
      (∀ more, (normalizeComponent (current ++ more)).isSome = true →
        (normalizeComponent (current' ++ more)).isSome = true) →
      ReadsOn current (q ++ post) → ReadsOn current' (q ++ post') := by
    intro out current q
    fun_induction componentLoop out current q with
    | case1 out current =>
      intro current' hcurrent h
      rw [List.nil_append, readsOn_unsplit hpost.unsplit] at h
      rw [List.nil_append, readsOn_unsplit hpost'.unsplit]
      exact hcurrent _ (hpost.swap hpost' h)
    | case2 out current =>
      intro current' hcurrent h
      have hopen : ∀ {a p : List Char}, Tail p → (ReadsOn a (['\\'] ++ p) ↔
          (normalizeComponent (a ++ ['\\'] ++ p)).isSome = true) := by
        intro a p hp
        cases p with
        | nil =>
          obtain ⟨c, hc, _⟩ := hp.inked
          cases hc
        | cons d rest =>
          have hrest : Unsplit rest := fun c hc => hp.unsplit c (List.mem_cons_of_mem _ hc)
          rw [List.singleton_append, readsOn_escape, readsOn_unsplit hrest]
          simp
      rw [hopen hpost] at h
      rw [hopen hpost']
      exact hmore hcurrent _ _ (hpost.swap hpost' h)
    | case3 out current d rest ih =>
      intro current' hcurrent h
      rw [List.cons_append, List.cons_append, readsOn_escape] at h ⊢
      exact ih _ (hmore hcurrent _) h
    | case4 out current rest _ ih =>
      intro current' hcurrent h
      rw [List.cons_append, readsOn_comma] at h ⊢
      refine ⟨?_, ih [] (fun _ h => h) h.2⟩
      have hend := hcurrent []
      rw [List.append_nil, List.append_nil] at hend
      exact hend h.1
    | case5 out current c rest hescape hcomma ih =>
      intro current' hcurrent h
      have hc : Unsplit [c] := by
        intro d hd
        rw [List.mem_singleton.mp hd]
        exact ⟨hescape, hcomma⟩
      rw [← List.singleton_append (x := c), List.append_assoc, readsOn_plain hc] at h ⊢
      exact ih _ (hmore hcurrent _) h
  exact hgen [] current q current' hcurrent h

omit [UnicodeTables] in
/-- A text that is read whole is read on with its last component begun. -/
theorem componentLoop_on {out : List (List Char)} {current cs : List Char}
    {ys : List (List Char)} {last : List Char}
    (h : componentLoop out current cs = some (ys ++ [last])) (rest : List Char) :
    componentLoop out current (cs ++ rest) = componentLoop ys last rest := by
  fun_induction componentLoop out current cs with
  | case1 out current =>
    obtain ⟨hys, hlast⟩ := List.append_inj' (Option.some.inj h) rfl
    rw [hys, List.singleton_inj.mp hlast, List.nil_append]
  | case2 out current => cases h
  | case3 out current d cs ih =>
    rw [List.cons_append, List.cons_append, componentLoop_escape]
    exact ih h
  | case4 out current cs _ ih =>
    rw [List.cons_append, componentLoop_comma]
    exact ih h
  | case5 out current c cs hescape hcomma ih =>
    rw [List.cons_append, componentLoop_char _ _ _ hescape hcomma]
    exact ih h

/-- A text whose last character is no escape leaves a component begun, and the text and
whatever follows it read when those before do and the rest does. -/
theorem readsOn_append (current cs : List Char) {stop : Char} (hend : stop ≠ '\\') :
    ∃ last, (∃ earlier : Prop,
      (ReadsOn current (cs ++ [stop]) ↔ earlier ∧ (normalizeComponent last).isSome = true) ∧
      ∀ rest, ReadsOn current (cs ++ [stop] ++ rest) ↔ earlier ∧ ReadsOn last rest) := by
  obtain ⟨xs, hxs⟩ := componentLoop_isSome hend [] current
  obtain ⟨ys, last, hlast⟩ := List.eq_nil_or_concat xs |>.resolve_left (componentLoop_ne_nil hxs)
  rw [hlast, List.concat_eq_append] at hxs
  refine ⟨last, ∀ y ∈ ys, (normalizeComponent y).isSome = true, ?_, ?_⟩
  · unfold ReadsOn
    rw [hxs]
    simp [or_imp, forall_and]
  · intro rest
    unfold ReadsOn
    rw [componentLoop_on hxs, componentLoop_out]
    cases componentLoop [] last rest with
    | none => simp
    | some zs => simp [or_imp, forall_and]

/-- A text written into a name twice, the first time without its white space at the
end, reads exactly when it does once. -/
theorem readsOn_twice {pre q q' space mid post : List Char}
    (hpre : (normalizeComponent pre).isSome = true) (hq : q = q' ++ space)
    (hspace : Unsplit space ∧ '=' ∉ space) (hmid : Tail mid) (hpost : Tail post) :
    ReadsOn pre (q' ++ mid ++ (q ++ post)) ↔ ReadsOn pre (q ++ post) := by
  have hspaced : Tail (space ++ post) := by
    refine ⟨?_, ?_, ?_⟩
    · intro c hc
      exact (List.mem_append.mp hc).elim (hspace.1 c) (hpost.unsplit c)
    · intro hc
      exact (List.mem_append.mp hc).elim hspace.2 hpost.unnamed
    · obtain ⟨c, hc, hink⟩ := hpost.inked
      exact ⟨c, List.mem_append_right _ hc, hink⟩
  obtain ⟨front, e, hfront⟩ : ∃ front e, mid = front ++ [e] := by
    rcases List.eq_nil_or_concat mid with hnil | ⟨front, e, h⟩
    · obtain ⟨c, hc, _⟩ := hmid.inked
      rw [hnil] at hc
      cases hc
    · exact ⟨front, e, by rw [h, List.concat_eq_append]⟩
  have hend : e ≠ '\\' := (hmid.unsplit e (by rw [hfront]; simp)).1
  obtain ⟨last, earlier, hfirst, hboth⟩ :=
    readsOn_append pre (q' ++ front) hend
  rw [List.append_assoc, ← hfront] at hfirst hboth
  rw [hboth]
  have hagain : ∀ {a : List Char}, (normalizeComponent a).isSome = true → ∀ more,
      (normalizeComponent (a ++ more)).isSome = true := fun ha => normalizeComponent_append ha
  constructor
  · intro h
    exact readsOn_swap hpost hpost (fun more _ => hagain hpre more) h.2
  · intro h
    have honce : ReadsOn pre (q' ++ mid) := by
      rw [hq, List.append_assoc] at h
      exact readsOn_swap hspaced hmid (fun _ h => h) h
    obtain ⟨hearlier, hlast⟩ := hfirst.mp honce
    exact ⟨hearlier, readsOn_swap hpost hpost (fun more _ => hagain hlast more) h⟩

end Tables

end Kerbridge.PlannerNames

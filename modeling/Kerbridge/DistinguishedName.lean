import Kerbridge.UnicodeText

/-!
# Distinguished names, taken apart

The one reading of a distinguished name every component shares: its parent, its
normalized components, and whether it lies at or within an organizational unit.
-/

namespace Kerbridge.DistinguishedName

open UnicodeText

/-- The loop of `parentOf`: the text after the first comma no backslash escapes. -/
def parentLoop : List Char → List Char
  | [] => []
  | c :: rest =>
    if c = '\\' then
      match rest with
      | [] => []
      | _ :: rest => parentLoop rest
    else if c = ',' then rest
    else parentLoop rest

/-- Everything after the first component, empty when there is no comma. -/
def parentOf (dn : String) : String := String.ofList (parentLoop dn.toList)

/-- The splitting loop of `dnComponents`: the components so far, and the one
being read. An escape keeps its backslash, and nothing may end in one. -/
def componentLoop (out : List (List Char)) (current : List Char) :
    List Char → Option (List (List Char))
  | [] => some (out ++ [current])
  | c :: rest =>
    if c = '\\' then
      match rest with
      | [] => none
      | d :: rest => componentLoop out (current ++ ['\\', d]) rest
    else if c = ',' then componentLoop (out ++ [current]) [] rest
    else componentLoop out (current ++ [c]) rest

/-- An escape is read with the character after it. -/
@[simp] theorem componentLoop_escape (out : List (List Char)) (current rest : List Char)
    (d : Char) : componentLoop out current ('\\' :: d :: rest) =
      componentLoop out (current ++ ['\\', d]) rest := by
  rw [componentLoop.eq_def]
  simp

/-- Nothing may end in an escape. -/
@[simp] theorem componentLoop_open (out : List (List Char)) (current : List Char) :
    componentLoop out current ['\\'] = none := by
  rw [componentLoop.eq_def]
  simp

/-- A comma ends a component. -/
@[simp] theorem componentLoop_comma (out : List (List Char)) (current rest : List Char) :
    componentLoop out current (',' :: rest) = componentLoop (out ++ [current]) [] rest := by
  rw [componentLoop.eq_def]
  simp

/-- Any other character belongs to the component. -/
theorem componentLoop_char (out : List (List Char)) (current rest : List Char) {c : Char}
    (hescape : c ≠ '\\') (hcomma : c ≠ ',') :
    componentLoop out current (c :: rest) = componentLoop out (current ++ [c]) rest := by
  rw [componentLoop.eq_def]
  simp [hescape, hcomma]

/-- Components read before stand before those that follow. -/
theorem componentLoop_prepend (pre out : List (List Char)) (current cs : List Char) :
    componentLoop (pre ++ out) current cs = (componentLoop out current cs).map (pre ++ ·) := by
  fun_induction componentLoop out current cs with
  | case1 out current => simp [componentLoop]
  | case2 out current => simp
  | case3 out current d rest ih => rw [componentLoop_escape, ih]
  | case4 out current rest _ ih => rw [componentLoop_comma, List.append_assoc, ih]
  | case5 out current c rest hescape hcomma ih =>
    rw [componentLoop_char _ _ _ hescape hcomma, ih]

/-- The components read so far stand before those that follow. -/
theorem componentLoop_out (out : List (List Char)) (current cs : List Char) :
    componentLoop out current cs = (componentLoop [] current cs).map (out ++ ·) := by
  have h := componentLoop_prepend out [] current cs
  rwa [List.append_nil] at h

/-- Text without an escape or a comma belongs to one component. -/
theorem componentLoop_plain {text : List Char} (h : ∀ c ∈ text, c ≠ '\\' ∧ c ≠ ',')
    (out : List (List Char)) (current rest : List Char) :
    componentLoop out current (text ++ rest) = componentLoop out (current ++ text) rest := by
  induction text generalizing current with
  | nil => simp
  | cons c text ih =>
    obtain ⟨hc, htext⟩ := List.forall_mem_cons.mp h
    rw [List.cons_append, componentLoop_char _ _ _ hc.1 hc.2, ih htext]
    simp

/-- A text that is read whole is read on over a comma. -/
theorem componentLoop_append {text : List Char} {current : List Char} {xs : List (List Char)}
    (h : componentLoop [] current text = some xs) (rest : List Char) :
    componentLoop [] current (text ++ ',' :: rest) =
      (componentLoop [] [] rest).map (xs ++ ·) := by
  have hgen : ∀ (out : List (List Char)) (current cs : List Char) (xs : List (List Char)),
      componentLoop out current cs = some xs →
        componentLoop out current (cs ++ ',' :: rest) = (componentLoop [] [] rest).map (xs ++ ·) := by
    intro out current cs
    fun_induction componentLoop out current cs with
    | case1 out current =>
      intro xs h
      cases h
      rw [List.nil_append, componentLoop_comma, componentLoop_out]
    | case2 out current =>
      intro xs h
      cases h
    | case3 out current d rest' ih =>
      intro xs h
      rw [List.cons_append, List.cons_append, componentLoop_escape]
      exact ih xs h
    | case4 out current rest' _ ih =>
      intro xs h
      rw [List.cons_append, componentLoop_comma]
      exact ih xs h
    | case5 out current c rest' hescape hcomma ih =>
      intro xs h
      rw [List.cons_append, componentLoop_char _ _ _ hescape hcomma]
      exact ih xs h
  exact hgen [] current text xs h

/-- A text whose last character is no escape is read whole. -/
theorem componentLoop_isSome {text : List Char} {last : Char} (hlast : last ≠ '\\')
    (out : List (List Char)) (current : List Char) :
    ∃ xs, componentLoop out current (text ++ [last]) = some xs := by
  fun_induction componentLoop out current text with
  | case1 out current =>
    by_cases hcomma : last = ','
    · subst hcomma
      exact ⟨_, by rw [List.nil_append, componentLoop_comma]; rfl⟩
    · exact ⟨_, by rw [List.nil_append, componentLoop_char _ _ _ hlast hcomma]; rfl⟩
  | case2 out current => exact ⟨_, by rw [List.singleton_append, componentLoop_escape]; rfl⟩
  | case3 out current d rest ih =>
    rw [List.cons_append, List.cons_append, componentLoop_escape]
    exact ih
  | case4 out current rest _ ih =>
    rw [List.cons_append, componentLoop_comma]
    exact ih
  | case5 out current c rest hescape hcomma ih =>
    rw [List.cons_append, componentLoop_char _ _ _ hescape hcomma]
    exact ih

/-- What follows the first component is the parent. -/
theorem componentLoop_parentLoop {cs current : List Char} {x y : List Char}
    {rest : List (List Char)} (h : componentLoop [] current cs = some (x :: y :: rest)) :
    componentLoop [] [] (parentLoop cs) = some (y :: rest) := by
  fun_induction parentLoop cs generalizing current with
  | case1 =>
    rw [componentLoop] at h
    simp at h
  | case2 =>
    rw [componentLoop_open] at h
    cases h
  | case3 d cs ih =>
    rw [componentLoop_escape] at h
    exact ih h
  | case4 cs _ =>
    rw [componentLoop_comma, componentLoop_out] at h
    obtain ⟨xs, hxs, heq⟩ := Option.map_eq_some_iff.mp h
    rw [hxs]
    simp only [List.nil_append, List.singleton_append, List.cons.injEq] at heq
    rw [heq.2]
  | case5 c cs hescape hcomma ih =>
    rw [componentLoop_char _ _ _ hescape hcomma] at h
    exact ih h

variable [UnicodeTables]

/-- One component, `attr=value`, trimmed and case-folded. -/
def normalizeComponent (component : List Char) : Option String := do
  let (attr, value) ← splitOnce '=' (String.ofList component)
  let attr := trim attr
  let value := trim value
  if attr.isEmpty || value.isEmpty then none
  else some (toLowercase attr ++ "=" ++ toLowercase value)

/-- A name as normalized components. -/
def dnComponents (dn : String) : Option (List String) := do
  (← componentLoop [] [] dn.toList).mapM normalizeComponent

/-- Whether a name is the unit itself or anything beneath it. -/
def dnIsAtOrWithin (dn ou : String) : Bool :=
  match dnComponents dn, dnComponents ou with
  | some d, some c => decide (c.length ≤ d.length) && decide (d.drop (d.length - c.length) = c)
  | _, _ => false

/-- Whether two names are one, however they are spelled. -/
def dnEquals (a b : String) : Bool :=
  match dnComponents a, dnComponents b with
  | some a, some b => decide (a = b)
  | _, _ => false

/-- Some character is no white space. -/
def Inked (cs : List Char) : Prop := ∃ c ∈ cs, isWhitespace c = false

omit [UnicodeTables] in
/-- Trimming leaves something of a text that is not all white space. -/
theorem trim_isEmpty_eq_false {s : String} : (trim s).isEmpty = false ↔ Inked s.toList := by
  have hempty : (trim s).isEmpty = true ↔ ∀ c ∈ s.toList, isWhitespace c = true := by
    rw [String.isEmpty_iff, trim, trimEndMatches, trimStartMatches, String.toList_ofList,
      String.ofList_eq_empty_iff, List.rdropWhile_eq_nil_iff]
    constructor
    · intro h
      rw [← List.dropWhile_eq_nil_iff]
      cases hd : s.toList.dropWhile isWhitespace with
      | nil => rfl
      | cons c rest =>
        have hc := h c (by rw [hd]; exact List.mem_cons_self)
        have hnot := List.head_dropWhile_not isWhitespace (l := s.toList) (by rw [hd]; simp)
        simp only [hd, List.head_cons] at hnot
        rw [hc] at hnot
        cases hnot
    · intro h c hc
      exact h c ((List.dropWhile_sublist _).subset hc)
  rw [Bool.eq_false_iff, ne_eq, hempty]
  simp [Inked]

/-- A component is read when it has a name, an equals sign and a value. -/
theorem normalizeComponent_isSome {component : List Char} :
    (normalizeComponent component).isSome = true ↔
      ∃ attr value, component = attr ++ '=' :: value ∧ '=' ∉ attr ∧ Inked attr ∧ Inked value := by
  have hsplit : ∀ attr value, component = attr ++ '=' :: value → '=' ∉ attr →
      splitOnce '=' (String.ofList component) = some (String.ofList attr, String.ofList value) := by
    intro attr value heq hattr
    have hne : ∀ c ∈ attr, (c != '=') = true := by
      intro c hc
      simpa using fun h : c = '=' => hattr (h ▸ hc)
    unfold splitOnce beforeFirst
    rw [String.toList_ofList, heq, List.dropWhile_append_of_pos hne,
      List.takeWhile_append_of_pos hne]
    simp
  constructor
  · intro h
    have hmem : '=' ∈ component := by
      by_contra hmem
      have hdrop : component.dropWhile (· != '=') = [] := by
        rw [List.dropWhile_eq_nil_iff]
        intro c hc
        simpa using fun h : c = '=' => hmem (h ▸ hc)
      unfold normalizeComponent splitOnce at h
      rw [String.toList_ofList, hdrop] at h
      simp at h
    obtain ⟨attr, value, heq, hattr⟩ := List.eq_append_cons_of_mem hmem
    refine ⟨attr, value, heq, hattr, ?_⟩
    unfold normalizeComponent at h
    rw [hsplit attr value heq hattr] at h
    simp only [Option.bind_eq_bind, Option.bind_some] at h
    split at h
    · simp at h
    · rename_i hne
      rw [Bool.or_eq_true, not_or, Bool.not_eq_true, Bool.not_eq_true, trim_isEmpty_eq_false,
        trim_isEmpty_eq_false, String.toList_ofList, String.toList_ofList] at hne
      exact hne
  · intro h
    obtain ⟨attr, value, heq, hattr, hname, hvalue⟩ := h
    have hname' : (trim (String.ofList attr)).isEmpty = false :=
      trim_isEmpty_eq_false.mpr (by rwa [String.toList_ofList])
    have hvalue' : (trim (String.ofList value)).isEmpty = false :=
      trim_isEmpty_eq_false.mpr (by rwa [String.toList_ofList])
    unfold normalizeComponent
    rw [hsplit attr value heq hattr]
    simp only [Option.bind_eq_bind, Option.bind_some, hname', hvalue', Bool.or_self,
      Bool.false_eq_true, if_false, Option.isSome_some]

/-- A text reads as the components of a name. -/
def Reads (text : String) : Prop := (dnComponents text).isSome = true

omit [UnicodeTables] in
/-- A step taken for every element ends well when each of them does. -/
theorem mapM_isSome {α β : Type} {f : α → Option β} {l : List α} :
    (l.mapM f).isSome = true ↔ ∀ a ∈ l, (f a).isSome = true := by
  induction l with
  | nil => simp
  | cons a l ih =>
    rw [List.mapM_cons, List.forall_mem_cons, ← ih]
    cases f a with
    | none => simp
    | some b => cases l.mapM f <;> simp

/-- A text reads when it splits, and each of its components does. -/
theorem reads_iff {text : String} : Reads text ↔ ∃ xs, componentLoop [] [] text.toList = some xs ∧
    ∀ x ∈ xs, (normalizeComponent x).isSome = true := by
  unfold Reads dnComponents
  cases hxs : componentLoop [] [] text.toList with
  | none => simp
  | some xs =>
    simp only [Option.bind_eq_bind, Option.bind_some, mapM_isSome, Option.some.injEq,
      exists_eq_left']

/-- A text before a comma reads on its own. -/
theorem dnComponents_append {text parent : String} {xs : List (List Char)}
    (h : componentLoop [] [] text.toList = some xs) :
    dnComponents (text ++ "," ++ parent) = (xs.mapM normalizeComponent).bind fun d =>
      (dnComponents parent).map (d ++ ·) := by
  unfold dnComponents
  have htext : (text ++ "," ++ parent).toList = text.toList ++ ',' :: parent.toList := by
    simp
  rw [htext, componentLoop_append h]
  cases componentLoop [] [] parent.toList with
  | none =>
    cases xs.mapM normalizeComponent <;> rfl
  | some ys =>
    simp only [Option.map_some, Option.bind_eq_bind, Option.bind_some, List.mapM_append]
    cases xs.mapM normalizeComponent with
    | none => rfl
    | some d =>
      cases ys.mapM normalizeComponent with
      | none => rfl
      | some ps => rfl

/-- A name lies at or within a unit when the unit's components end its own. -/
theorem dnIsAtOrWithin_iff {dn ou : String} : dnIsAtOrWithin dn ou = true ↔
    ∃ d c, dnComponents dn = some d ∧ dnComponents ou = some c ∧ c <:+ d := by
  unfold dnIsAtOrWithin
  cases hd : dnComponents dn with
  | none => simp
  | some d =>
    cases hc : dnComponents ou with
    | none => simp
    | some c =>
      simp only [Bool.and_eq_true, decide_eq_true_eq]
      constructor
      · intro h
        refine ⟨d, c, rfl, rfl, d.take (d.length - c.length), ?_⟩
        rw [← List.take_append_drop (d.length - c.length) d, h.2]
        simp
      · intro h
        obtain ⟨d', c', hd', hc', pre, hpre⟩ := h
        cases hd'
        cases hc'
        rw [← hpre]
        simp

/-- What stands in a unit's place below a name of the unit lies within it exactly when
it reads. -/
theorem within_append {text parent ou : String} {xs : List (List Char)}
    (hloop : componentLoop [] [] text.toList = some xs)
    (hparent : dnIsAtOrWithin parent ou = true) :
    dnIsAtOrWithin (text ++ "," ++ parent) ou = true ↔ Reads text := by
  obtain ⟨ps, c, hps, hc, hsuffix⟩ := dnIsAtOrWithin_iff.mp hparent
  have hreads : Reads text ↔ (xs.mapM normalizeComponent).isSome = true := by
    rw [reads_iff, mapM_isSome, hloop]
    simp
  rw [dnIsAtOrWithin_iff, hreads, dnComponents_append hloop, hps]
  cases hd : xs.mapM normalizeComponent with
  | none => simp
  | some d =>
    simp only [Option.bind_some, Option.map_some, Option.isSome_some, iff_true]
    exact ⟨_, c, rfl, hc, hsuffix.trans (List.suffix_append d ps)⟩

omit [UnicodeTables] in
/-- A text that is read whole has a component. -/
theorem componentLoop_ne_nil {out : List (List Char)} {current cs : List Char}
    {xs : List (List Char)} (h : componentLoop out current cs = some xs) : xs ≠ [] := by
  fun_induction componentLoop out current cs with
  | case1 out current =>
    cases h
    simp
  | case2 out current => cases h
  | case3 out current d rest ih => exact ih h
  | case4 out current rest _ ih => exact ih h
  | case5 out current c rest _ _ ih => exact ih h

omit [UnicodeTables] in
/-- The results of a step taken for every element of a list with a first element. -/
theorem mapM_cons_eq_some {α β : Type} {f : α → Option β} {a : α} {l : List α} {l' : List β} :
    (a :: l).mapM f = some l' ↔ ∃ b bs, f a = some b ∧ l.mapM f = some bs ∧ l' = b :: bs := by
  rw [List.mapM_cons]
  cases f a with
  | none => simp
  | some b =>
    cases l.mapM f with
    | none => simp
    | some bs =>
      simp only [Option.pure_def, Option.bind_eq_bind, Option.bind_some, Option.some.injEq]
      constructor
      · intro h
        exact ⟨b, bs, rfl, rfl, h.symm⟩
      · intro h
        obtain ⟨b', bs', hb, hbs, heq⟩ := h
        rw [hb, hbs, heq]

/-- What follows the first component of a name are the components of its parent. -/
theorem dnComponents_parentOf {dn : String} {x y : String} {rest : List String}
    (h : dnComponents dn = some (x :: y :: rest)) :
    dnComponents (parentOf dn) = some (y :: rest) := by
  unfold dnComponents at h
  obtain ⟨xs, hxs, hmap⟩ := Option.bind_eq_some_iff.mp h
  cases xs with
  | nil => exact absurd rfl (componentLoop_ne_nil hxs)
  | cons x' xs =>
    obtain ⟨_, bs, _, hbs, heq⟩ := mapM_cons_eq_some.mp hmap
    cases heq
    cases xs with
    | nil => cases hbs
    | cons y' xs =>
      unfold dnComponents parentOf
      rw [String.toList_ofList, componentLoop_parentLoop hxs]
      exact hbs

/-- A name has a component. -/
theorem dnComponents_ne_nil {dn : String} {d : List String} (h : dnComponents dn = some d) :
    d ≠ [] := by
  unfold dnComponents at h
  obtain ⟨xs, hxs, hmap⟩ := Option.bind_eq_some_iff.mp h
  cases xs with
  | nil => exact absurd rfl (componentLoop_ne_nil hxs)
  | cons x xs =>
    obtain ⟨_, bs, _, _, heq⟩ := mapM_cons_eq_some.mp hmap
    rw [heq]
    simp

/-- The parent of a name below a unit lies at or within the unit. -/
theorem within_parentOf {dn ou : String} (hwithin : dnIsAtOrWithin dn ou = true)
    (hbelow : dnEquals dn ou = false) : dnIsAtOrWithin (parentOf dn) ou = true := by
  obtain ⟨d, c, hd, hc, pre, hpre⟩ := dnIsAtOrWithin_iff.mp hwithin
  have hne : d ≠ c := by
    intro heq
    unfold dnEquals at hbelow
    rw [hd, hc, heq] at hbelow
    simp at hbelow
  cases pre with
  | nil => exact absurd hpre.symm hne
  | cons x pre =>
    cases hrest : pre ++ c with
    | nil => exact absurd (List.append_eq_nil_iff.mp hrest).2 (dnComponents_ne_nil hc)
    | cons y rest =>
      have hshape : dnComponents dn = some (x :: y :: rest) := by
        rw [hd, ← hpre, List.cons_append, hrest]
      refine dnIsAtOrWithin_iff.mpr ⟨y :: rest, c, dnComponents_parentOf hshape, hc, pre, hrest⟩

/-- A name that reads is its own. -/
theorem dnEquals_self {dn : String} (h : Reads dn) : dnEquals dn dn = true := by
  obtain ⟨d, hd⟩ := Option.isSome_iff_exists.mp h
  unfold dnEquals
  rw [hd]
  simp

/-- Two names are one whichever of them is asked about. -/
theorem dnEquals_comm (a b : String) : dnEquals a b = dnEquals b a := by
  unfold dnEquals
  cases dnComponents a with
  | none =>
    cases dnComponents b with
    | none => rfl
    | some y => rfl
  | some x =>
    cases dnComponents b with
    | none => rfl
    | some y => exact decide_eq_decide.mpr eq_comm

omit [UnicodeTables] in
/-- A parent is shorter than the name it is a parent of. -/
theorem parentLoop_length {cs : List Char} (h : cs ≠ []) : (parentLoop cs).length < cs.length := by
  fun_induction parentLoop cs with
  | case1 => exact absurd rfl h
  | case2 => simp
  | case3 d cs ih =>
    cases cs with
    | nil => simp [parentLoop]
    | cons c cs =>
      have hlt := ih (by simp)
      simp only [List.length_cons] at hlt ⊢
      omega
  | case4 cs _ => simp
  | case5 c cs _ _ ih =>
    cases cs with
    | nil => simp [parentLoop]
    | cons c' cs =>
      have hlt := ih (by simp)
      simp only [List.length_cons] at hlt ⊢
      omega

omit [UnicodeTables] in
/-- A name of one component has no parent. -/
theorem parentLoop_eq_nil {cs current : List Char} {x : List Char}
    (h : componentLoop [] current cs = some [x]) : parentLoop cs = [] := by
  fun_induction parentLoop cs generalizing current with
  | case1 => rfl
  | case2 => rfl
  | case3 d cs ih =>
    rw [componentLoop_escape] at h
    exact ih h
  | case4 cs _ =>
    rw [componentLoop_comma, componentLoop_out] at h
    obtain ⟨xs, hxs, heq⟩ := Option.map_eq_some_iff.mp h
    simp only [List.nil_append, List.singleton_append, List.cons.injEq] at heq
    exact absurd heq.2 (componentLoop_ne_nil hxs)
  | case5 c cs hescape hcomma ih =>
    rw [componentLoop_char _ _ _ hescape hcomma] at h
    exact ih h

/-- The parent of a name of one component is empty. -/
theorem parentOf_single {dn x : String} (h : dnComponents dn = some [x]) : parentOf dn = "" := by
  unfold dnComponents at h
  obtain ⟨xs, hxs, hmap⟩ := Option.bind_eq_some_iff.mp h
  cases xs with
  | nil => exact absurd rfl (componentLoop_ne_nil hxs)
  | cons y ys =>
    obtain ⟨_, bs, _, hbs, heq⟩ := mapM_cons_eq_some.mp hmap
    cases heq
    cases ys with
    | nil =>
      unfold parentOf
      rw [parentLoop_eq_nil hxs]
    | cons y' ys =>
      obtain ⟨_, _, _, _, hne⟩ := mapM_cons_eq_some.mp hbs
      cases hne

/-- Two names are one when they have the same components. -/
theorem dnEquals_iff {a b : String} :
    dnEquals a b = true ↔ ∃ c, dnComponents a = some c ∧ dnComponents b = some c := by
  unfold dnEquals
  cases dnComponents a with
  | none => simp
  | some x =>
    cases dnComponents b with
    | none => simp
    | some y =>
      rw [decide_eq_true_iff]
      constructor
      · rintro rfl
        exact ⟨x, rfl, rfl⟩
      · rintro ⟨c, hx, hy⟩
        rw [Option.some.inj hx, Option.some.inj hy]

/-- The empty text is no name. -/
theorem dnComponents_empty : dnComponents "" = none := by
  unfold dnComponents
  rfl

/-- The components of a unit are its own one and those of its parent. -/
theorem components_of_parent {ou parent : String} {c : List String}
    (hparent : dnEquals (parentOf ou) parent = true) (hc : dnComponents parent = some c)
    (h : Reads ou) : ∃ x, dnComponents ou = some (x :: c) := by
  obtain ⟨u, hu⟩ := Option.isSome_iff_exists.mp h
  obtain ⟨c', hc', hparent'⟩ := dnEquals_iff.mp hparent
  rw [hc] at hparent'
  cases hparent'
  cases u with
  | nil => exact absurd rfl (dnComponents_ne_nil hu)
  | cons x rest =>
    cases rest with
    | nil =>
      rw [parentOf_single hu, dnComponents_empty] at hc'
      cases hc'
    | cons y rest =>
      have heq := dnComponents_parentOf hu
      rw [hc'] at heq
      cases heq
      exact ⟨x, hu⟩

/-- The parent of a name that reads is shorter than the name. -/
theorem parentOf_length {dn : String} {d : List String} (h : dnComponents dn = some d) :
    (parentOf dn).toList.length < dn.toList.length := by
  unfold parentOf
  rw [String.toList_ofList]
  apply parentLoop_length
  intro hnil
  have hempty : dn = "" := String.toList_injective hnil
  rw [hempty, dnComponents_empty] at h
  cases h

end Kerbridge.DistinguishedName

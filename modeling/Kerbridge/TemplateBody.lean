import Kerbridge.NotifyTemplate

/-!
# The body of a notification is a document

A template that is accepted renders as one document, whatever the values are, unless a
placeholder stands behind a code that lacks its last digit: the sample begins with a
letter that is a digit of such a code, and other values do not.
-/

namespace Kerbridge.Notify

open JsonText Fallible

/-- The name of a field. -/
def Field.name : Field → String
  | .event => "EVENT"
  | .severity => "SEVERITY"
  | .component => "COMPONENT"
  | .realm => "REALM"
  | .timestamp => "TIMESTAMP"
  | .message => "MESSAGE"
  | .detail => "DETAIL"
  | .icon => "ICON"

/-- A piece of a template as it was written. -/
def Part.spelled : Part → List Char
  | .literal text => text.toList
  | .field named => '%' :: named.name.toList ++ ['%']

/-- A field is looked up by its name. -/
theorem Field.lookup_eq_some {name : String} {field : Field} (h : Field.lookup name = some field) :
    field.name = name := by
  obtain ⟨named, hnamed, rfl⟩ := Option.map_eq_some_iff.mp h
  have hname : named.1 = name := by
    have hmatch := List.find?_some hnamed
    simpa using hmatch
  have hall : ∀ named ∈ Field.all, named.2.name = named.1 := by decide
  rw [hall named (List.mem_of_find?_eq_some hnamed), hname]

/-- Literal text is spelled as it is. -/
theorem literalPart_spelled (text : List Char) :
    (literalPart text).flatMap Part.spelled = text := by
  unfold literalPart
  split_ifs with hempty
  · rw [hempty]
    rfl
  · simp [Part.spelled]

/-- The pieces of the rest of a template are the literal text and the rest. -/
theorem partsFrom_spelled {literal rest : List Char} {template : Template}
    (h : partsFrom literal rest = .ok template) :
    template.flatMap Part.spelled = literal ++ rest := by
  fun_induction partsFrom literal rest generalizing template with
  | case1 literal rest hnone =>
    cases h
    exact literalPart_spelled _
  | case2 literal rest before after hfound name tail hclosed hshape field hfield ih =>
    obtain ⟨parts, hparts, rfl⟩ := map_ok_iff.mp h
    have hname : name = field.name.toList := by
      rw [Field.lookup_eq_some hfield, String.toList_ofList]
    rw [List.flatMap_append, literalPart_spelled, List.flatMap_cons, ih hparts, atPercent_eq hfound,
      atPercent_eq hclosed, hname]
    simp [Part.spelled]
  | case3 => cases h
  | case4 literal rest before after hfound name tail hclosed hshape ih =>
    rw [ih h, atPercent_eq hfound]
    simp
  | case5 literal rest before after hfound hopen ih =>
    rw [ih h, atPercent_eq hfound]
    simp

/-- **The pieces of a template** are the text it was written as. -/
theorem parts_spelled {raw : String} {template : Template} (h : parts raw = .ok template) :
    String.ofList (template.flatMap Part.spelled) = raw := by
  rw [partsFrom_spelled h, List.nil_append, String.ofList_toList]

/-- The pieces of a template with one placeholder. -/
theorem parts_spelled_event : String.ofList (([.literal "to ", .field .event, .literal " now"] :
    Template).flatMap Part.spelled) = "to %EVENT% now" :=
  parts_spelled (by decide +kernel)

section Body

/-- A template as a text with holes. -/
def Template.symbols (template : Template) : List (Symbol Field) :=
  template.flatMap fun
    | .literal text => plain text.toList
    | .field field => [.hole field]

/-- A placeholder stands behind a code that lacks its last digit. -/
def Template.CutsEscape (template : Template) : Prop := cutsFrom 0 template.symbols = true

/-- **A body carries its values**: the template reads as a document with holes, and whatever the
values are, the body reads as that document with the values in the places of the holes. -/
def Carries (serde : SerdeJson) (template : Template) : Prop :=
  ∃ document, JsonText.read template.symbols = some document ∧ ∀ values : Values,
    JsonText.read (plain (template.render serde values).toList) =
      some (document.fill fun field => (values.get field).toList)

variable {serde : SerdeJson}

/-- A value is escaped as a text of a document is. -/
theorem escape_eq (value : String) :
    (escape serde value).toList = JsonText.escape value.toList := by
  unfold escape
  rw [serde.toString_eq]
  simp

/-- Literal text has no holes to fill. -/
theorem fill_plain {H : Type} (f : H → List Char) (text : List Char) :
    fill f (plain text) = plain text := by
  induction text with
  | nil => rfl
  | cons c rest ih =>
    change fill f (.char c :: plain rest) = _
    rw [fill_char, ih]
    rfl

/-- A body is its template, filled with escaped values. -/
theorem render_eq (template : Template) (values : Values) :
    plain (template.render serde values).toList =
      fill (fun field => JsonText.escape (values.get field).toList) template.symbols := by
  unfold Template.render
  induction template with
  | nil => rfl
  | cons part rest ih =>
    rw [List.map_cons, String.join_cons, String.toList_append]
    change _ = fill _ (_ ++ Template.symbols rest)
    rw [plain, List.map_append, fill_append]
    change plain _ ++ plain _ = _
    rw [ih]
    congr 1
    cases part with
    | literal text => rw [fill_plain]
    | field field =>
      dsimp only
      rw [escape_eq, fill_hole, fill_nil, List.append_nil]

/-- Between tokens no letter of the sample is read. -/
theorem between_letter (mode : Mode Field) (stack : List (Frame Field)) :
    between mode stack 'a' = none := by
  cases mode with
  | _ => rfl

/-- Outside of strings the sample's first letter is read in a word only, and no string follows. -/
theorem readChar_letter {q q' : State Field} (houtside : ¬q.Inside)
    (h : readChar q 'a' = some q') : ¬q'.Inside := by
  obtain ⟨mode, stack⟩ := q
  unfold readChar at h
  cases mode with
  | string place text quoted => exact absurd ⟨place, text, quoted, rfl⟩ houtside
  | number text numeral =>
    have htake : numeral.take 'a' = none := by
      cases numeral with
      | _ => rfl
    dsimp only at h
    rw [htake] at h
    dsimp only at h
    rw [between_letter, ite_self] at h
    cases h
  | word word read =>
    dsimp only at h
    split_ifs at h
    · cases h
      exact complete_outside _ _
    · cases h
      rintro ⟨place, text, quoted, hmode⟩
      cases hmode
  | _ =>
    dsimp only at h
    rw [between_letter] at h
    cases h

/-- **What the sample shows**: where its first two characters are read, a hole is read as well, or
a code lacks its last digit. -/
theorem readHole_of_sample {q q₁ q₂ : State Field} (hletter : readChar q 'a' = some q₁)
    (hslash : readChar q₁ '\\' = some q₂) (field : Field) :
    (∃ q', readHole q field = some q') ∨ 5 ≤ q.depth := by
  by_cases hinside : q.Inside
  · obtain ⟨mode, stack⟩ := q
    obtain ⟨place, text, quoted, hmode⟩ := hinside
    dsimp only at hmode
    subst hmode
    cases quoted with
    | plain => exact Or.inl ⟨_, rfl⟩
    | backslash => cases hletter
    | code leading digits value =>
      by_cases hmore : digits < 3
      · have htake : (Quoted.code leading digits value).take 'a' =
            some (.next none (.code leading (digits + 1) (16 * value + 10))) := if_pos hmore
        unfold readChar at hletter
        dsimp only at hletter
        rw [htake] at hletter
        cases hletter
        cases hslash
      · refine Or.inr ?_
        change 5 ≤ digits + 2
        omega
    | trailing leading slash =>
      cases slash with
      | false => cases hletter
      | true => cases hletter
  · exact absurd rfl (readChar_outside (readChar_letter hinside hletter) hslash).2.1

/-- Where a code lacks its last digit, a letter that is no digit is refused. -/
theorem readChar_cut {q : State Field} (h : 5 ≤ q.depth) : readChar q 'z' = none := by
  obtain ⟨mode, stack⟩ := q
  cases mode with
  | string place text quoted =>
    cases quoted with
    | code leading digits value => rfl
    | plain => cases h
    | backslash =>
      change 5 ≤ 1 at h
      omega
    | trailing leading slash =>
      cases slash with
      | false => cases h
      | true =>
        change 5 ≤ 1 at h
        omega
  | _ => cases h

/-- The sample is escaped as a letter, a backslash and more. -/
theorem escape_hostile : ∃ rest, JsonText.escape hostile.toList = 'a' :: '\\' :: rest :=
  ⟨_, rfl⟩

/-- The machine reads the sample at a hole: it reads the hole, or a code lacks its last digit. -/
theorem hole_of_sample {q : State Field} {final : State Empty} {rest : List (Symbol Empty)}
    (h : run (q.fill fun _ => hostile.toList)
      (plain (JsonText.escape hostile.toList) ++ rest) = some final) (field : Field) :
    (∃ q', readHole q field = some q') ∨ 5 ≤ q.depth := by
  obtain ⟨more, hmore⟩ := escape_hostile
  rw [hmore, plain, List.map_cons, List.map_cons, List.cons_append, List.cons_append] at h
  obtain ⟨q₁, hletter, hrest⟩ := run_char_fill _ h
  obtain ⟨q₂, hslash, _⟩ := run_char_fill _ hrest
  exact readHole_of_sample hletter hslash field

/-- A hole that is read leaves no escape open. -/
theorem readHole_depth {q q' : State Field} {field : Field} (h : readHole q field = some q') :
    q.depth = 0 ∧ q'.depth = 0 := by
  obtain ⟨place, text, hq, rfl⟩ := readHole_eq_some h
  rw [hq]
  exact ⟨rfl, rfl⟩

/-- **The sample speaks for every value** where no code is cut: the text with its holes is read. -/
theorem run_of_sample {text : List (Symbol Field)} : ∀ {q : State Field} {final : State Empty},
    cutsFrom q.depth text = false →
    run (q.fill fun _ => hostile.toList)
      (fill (fun _ => JsonText.escape hostile.toList) text) = some final →
    ∃ q', run q text = some q' := by
  induction text with
  | nil =>
    intro q final _ _
    exact ⟨q, rfl⟩
  | cons symbol rest ih =>
    intro q final hcuts h
    cases symbol with
    | char c =>
      obtain ⟨next, hread, hrest⟩ := run_char_fill _ h
      rw [cutsFrom, ← readChar_depth hread] at hcuts
      rw [run_cons, step, hread]
      exact ih hcuts hrest
    | hole field =>
      rw [cutsFrom, Bool.or_eq_false_iff, decide_eq_false_iff_not] at hcuts
      rw [fill_hole] at h
      rcases hole_of_sample h field with ⟨next, hread⟩ | hcut
      · rw [run_append, run_hole _ hread] at h
        rw [run_cons, step, hread]
        refine ih ?_ h
        rw [(readHole_depth hread).2]
        exact hcuts.2
      · exact absurd hcut hcuts.1

/-- **Where a code is cut** the sample speaks for no other letter. -/
theorem run_cut {text : List (Symbol Field)} : ∀ {q : State Field} {final : State Empty},
    cutsFrom q.depth text = true →
    run (q.fill fun _ => hostile.toList)
      (fill (fun _ => JsonText.escape hostile.toList) text) = some final →
    run (q.fill fun _ => ['z']) (fill (fun _ => JsonText.escape ['z']) text) = none := by
  induction text with
  | nil =>
    intro q final hcuts _
    cases hcuts
  | cons symbol rest ih =>
    intro q final hcuts h
    cases symbol with
    | char c =>
      obtain ⟨next, hread, hrest⟩ := run_char_fill _ h
      rw [cutsFrom, ← readChar_depth hread] at hcuts
      rw [fill_char, run_cons, step, readChar_fill, hread]
      exact ih hcuts hrest
    | hole field =>
      rw [cutsFrom, Bool.or_eq_true, decide_eq_true_iff] at hcuts
      rw [fill_hole] at h
      rw [fill_hole, run_append]
      by_cases hcut : 5 ≤ q.depth
      · have hnone : run (q.fill fun _ => ['z']) (plain (JsonText.escape ['z'])) = none := by
          change (readChar _ 'z').bind _ = none
          rw [readChar_fill, readChar_cut hcut]
          rfl
        rw [hnone]
        rfl
      · rcases hole_of_sample h field with ⟨next, hread⟩ | hcut'
        · rw [run_append, run_hole _ hread] at h
          rw [run_hole _ hread]
          refine ih ?_ h
          rw [(readHole_depth hread).2]
          exact hcuts.resolve_left hcut
        · exact absurd hcut' hcut

/-- Values that are all alike. -/
theorem get_alike (value : String) (field : Field) :
    Values.get ⟨value, value, value, value, value, value, value, value⟩ field = value := by
  cases field with
  | _ => rfl

/-- The sample of an accepted template is a document. -/
theorem sample_read {raw : String} {template : Template}
    (h : Template.parse serde raw = .ok template) : ∃ document : Json Empty,
      JsonText.read (fill (fun _ => JsonText.escape hostile.toList) template.symbols) =
        some document := by
  unfold Template.parse at h
  split at h
  · cases h
  · dsimp only at h
    split_ifs at h with htaken
    cases h
    have hread := serde.fromStr_read _ htaken
    simp only [render_eq, get_alike] at hread
    exact Option.isSome_iff_exists.mp hread

/-- **When a body carries its values**: exactly when no placeholder of the accepted template stands
behind a code that lacks its last digit. -/
theorem parse_carries_iff {raw : String} {template : Template}
    (h : Template.parse serde raw = .ok template) :
    Carries serde template ↔ ¬template.CutsEscape := by
  obtain ⟨sampled, hsampled⟩ := sample_read h
  obtain ⟨final, hrun, hfinish⟩ := Option.bind_eq_some_iff.mp hsampled
  constructor
  · rintro ⟨document, _, hevery⟩ hcuts
    have hbody := hevery ⟨"z", "z", "z", "z", "z", "z", "z", "z"⟩
    simp only [render_eq, get_alike] at hbody
    have hcut : run ⟨.value, []⟩ (fill (fun _ => JsonText.escape ['z']) template.symbols) = none :=
      run_cut (q := ⟨.value, []⟩) hcuts hrun
    unfold JsonText.read at hbody
    rw [show "z".toList = ['z'] from rfl, hcut] at hbody
    cases hbody
  · intro hcuts
    obtain ⟨q, hq⟩ := run_of_sample (q := ⟨.value, []⟩) (Bool.eq_false_iff.mpr hcuts) hrun
    have hfilled : run ⟨.value, []⟩ _ = some (q.fill fun _ => hostile.toList) := run_fill _ hq
    rw [hrun] at hfilled
    cases hfilled
    rw [finish_fill] at hfinish
    obtain ⟨document, hdocument, _⟩ := Option.map_eq_some_iff.mp hfinish
    have hread : JsonText.read template.symbols = some document := by
      unfold JsonText.read
      rw [hq, Option.bind_some, hdocument]
    refine ⟨document, hread, ?_⟩
    intro values
    rw [render_eq]
    exact read_fill _ hread

end Body

section Sample

/-- A library that takes the documents, and nothing else. -/
def documents : SerdeJson where
  fromStr text := (JsonText.read (H := Empty) (plain text.toList)).isSome
  toString text := "\"" ++ String.ofList (JsonText.escape text.toList) ++ "\""
  fromStr_read _ h := h
  toString_eq _ := rfl

/-- A body with two placeholders in one string carries their values. -/
theorem parse_carries_text : ∃ template,
    Template.parse documents "\x7b\"text\":\"%ICON% %MESSAGE%\"\x7d" = .ok template ∧
      Carries documents template := by
  have hparse : Template.parse documents "\x7b\"text\":\"%ICON% %MESSAGE%\"\x7d" =
      .ok [.literal "\x7b\"text\":\"", .field .icon, .literal " ", .field .message,
        .literal "\"\x7d"] := by
    decide +kernel
  refine ⟨_, hparse, (parse_carries_iff hparse).mpr ?_⟩
  unfold Template.CutsEscape
  decide

/-- The values of an event whose texts are all one letter. -/
def letters : Values := ⟨"z", "z", "z", "z", "z", "z", "z", "z"⟩

/-- A placeholder behind a code that lacks its last digit: the template is accepted, and a message
breaks the body. -/
theorem parse_breaks_code : ∃ template,
    Template.parse documents "\x7b\"text\":\"\\u000%MESSAGE%\"\x7d" = .ok template ∧
      (JsonText.read (H := Empty) (plain (template.render documents letters).toList)).isNone ∧
        ¬Carries documents template := by
  have hparse : Template.parse documents "\x7b\"text\":\"\\u000%MESSAGE%\"\x7d" =
      .ok [.literal "\x7b\"text\":\"\\u000", .field .message, .literal "\"\x7d"] := by
    decide +kernel
  have hbroken : (JsonText.read (H := Empty) (plain (Template.render documents
      [.literal "\x7b\"text\":\"\\u000", .field .message, .literal "\"\x7d"] letters).toList)).isNone := by
    decide
  refine ⟨_, hparse, hbroken, ?_⟩
  rintro ⟨document, _, hevery⟩
  rw [hevery letters] at hbroken
  cases hbroken

end Sample

end Kerbridge.Notify

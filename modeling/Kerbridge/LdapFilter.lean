import Mathlib.Data.List.TakeDrop

/-!
# Search filters as text

A directory server reads a filter out of the text a client sends. A value is
escaped on the way in, so that no character of it is read as structure. The
parser below reads conjunctions, disjunctions, negations, and items whose value
is a pattern of pieces between stars: one piece is an equality, an extensible
item names the rule it is matched by. The queries are what a client means, and
any escaping that the parser undoes gives exactly the filter of the query.
-/

namespace Kerbridge.LdapFilter

/-- A value as the server compares it. -/
abbrev Octets := List UInt8

/-- The octets of a text. -/
def utf8 (cs : List Char) : Octets := cs.flatMap String.utf8EncodeChar

/-- Octets are of one text only. -/
theorem utf8_injective {a b : List Char} (h : utf8 a = utf8 b) : a = b := by
  have henc : a.utf8Encode = b.utf8Encode := congrArg List.toByteArray h
  apply String.ofList_injective
  apply String.toByteArray_inj.mp
  rw [String.toByteArray_ofList, String.toByteArray_ofList, henc]

/-- A filter as the server reads it. -/
inductive Filter where
  | all (fs : List Filter)
  | any (fs : List Filter)
  | not (f : Filter)
  /-- The value is the pieces between stars. -/
  | item (attr : String) (rule : Option String) (pattern : List Octets)

mutual

/-- Whether an object passes a filter, given how it answers one item. -/
def Filter.holds (test : String → Option String → List Octets → Bool) : Filter → Bool
  | .all fs => allHold test fs
  | .any fs => anyHolds test fs
  | .not f => !f.holds test
  | .item attr rule pattern => test attr rule pattern

/-- Whether an object passes every filter of a list. -/
def allHold (test : String → Option String → List Octets → Bool) : List Filter → Bool
  | [] => true
  | f :: fs => f.holds test && allHold test fs

/-- Whether an object passes some filter of a list. -/
def anyHolds (test : String → Option String → List Octets → Bool) : List Filter → Bool
  | [] => false
  | f :: fs => f.holds test || anyHolds test fs

end

/-- The value of a hexadecimal digit. -/
def hexDigit (c : Char) : Option ℕ :=
  if '0' ≤ c ∧ c ≤ '9' then some (c.toNat - 48)
  else if 'a' ≤ c ∧ c ≤ 'f' then some (c.toNat - 87)
  else if 'A' ≤ c ∧ c ≤ 'F' then some (c.toNat - 55)
  else none

/-- One piece of a value. A backslash stands before two hexadecimal digits. -/
def decodePiece : List Char → Option Octets
  | [] => some []
  | c :: rest =>
    if c = '\\' then
      match rest with
      | a :: b :: rest => do
        let hi ← hexDigit a
        let lo ← hexDigit b
        return UInt8.ofNat (16 * hi + lo) :: (← decodePiece rest)
      | _ => none
    else if c = '(' ∨ c = ')' ∨ c = '*' ∨ c = '\x00' then none
    else (decodePiece rest).map (String.utf8EncodeChar c ++ ·)

/-- The text before the sign of an item: an attribute, and the rule of an
extensible item between colons. -/
def parseHeader (header : List Char) : Option (String × Option String) :=
  match header.splitOn ':' with
  | [attr] => some (String.ofList attr, none)
  | [attr, rule, []] => some (String.ofList attr, some (String.ofList rule))
  | _ => none

/-- The text between the brackets of an item. -/
def parseItem (body : List Char) : Option Filter := do
  let (header, value) := body.span (· != '=')
  let (attr, rule) ← parseHeader header
  match value with
  | '=' :: value => return .item attr rule (← (value.splitOn '*').mapM decodePiece)
  | _ => none

mutual

/-- One filter at the head of a text, and the text behind it. -/
def parseFilter : ℕ → List Char → Option (Filter × List Char)
  | n + 1, '(' :: '&' :: rest => (parseList n rest).map fun p => (.all p.1, p.2)
  | n + 1, '(' :: '|' :: rest => (parseList n rest).map fun p => (.any p.1, p.2)
  | n + 1, '(' :: '!' :: rest =>
    match parseFilter n rest with
    | some (f, ')' :: rest) => some (.not f, rest)
    | _ => none
  | _ + 1, '(' :: rest =>
    match rest.span (· != ')') with
    | (body, ')' :: rest) => (parseItem body).map fun f => (f, rest)
    | _ => none
  | _, _ => none

/-- The filters up to the closing bracket of a list. -/
def parseList : ℕ → List Char → Option (List Filter × List Char)
  | _ + 1, ')' :: rest => some ([], rest)
  | n + 1, cs =>
    match parseFilter n cs with
    | some (f, cs) => (parseList n cs).map fun p => (f :: p.1, p.2)
    | none => none
  | 0, _ => none

end

/-- A whole text as one filter. -/
def parse (text : String) : Option Filter :=
  match parseFilter text.toList.length text.toList with
  | some (f, []) => some f
  | _ => none

/-- One item a client asks for: a value to be equal to, or to be related to by a
named rule. -/
structure Item where
  attr : String
  rule : Option String := none
  value : String
  deriving DecidableEq

/-- What a client asks for. -/
inductive Query where
  | item (i : Item)
  | all (is : List Item)
  | any (is : List Item)

/-- The filter an item means. -/
def Item.filter (i : Item) : Filter := .item i.attr i.rule [utf8 i.value.toList]

/-- The filter a query means. -/
def Query.filter : Query → Filter
  | .item i => i.filter
  | .all is => .all (is.map Item.filter)
  | .any is => .any (is.map Item.filter)

/-- The items of a query. -/
def Query.items : Query → List Item
  | .item i => [i]
  | .all is => is
  | .any is => is

/-- The text before the sign of an item. -/
def Item.header (i : Item) : String :=
  match i.rule with
  | none => i.attr
  | some rule => i.attr ++ ":" ++ rule ++ ":"

/-- An item as text. -/
def Item.render (esc : String → String) (i : Item) : String :=
  "(" ++ i.header ++ "=" ++ esc i.value ++ ")"

/-- A query as text. -/
def Query.render (esc : String → String) : Query → String
  | .item i => i.render esc
  | .all is => "(&" ++ String.join (is.map (Item.render esc)) ++ ")"
  | .any is => "(|" ++ String.join (is.map (Item.render esc)) ++ ")"

/-- A character that may stand in an attribute or a rule name. -/
def nameChar (c : Char) : Bool := c.isAlphanum || c == '-' || c == '.' || c == ';'

/-- An item whose attribute and rule are names, as every item in program text is. -/
def Item.Named (i : Item) : Prop :=
  (i.attr.toList.all nameChar = true ∧ i.attr ≠ "") ∧
    ∀ rule ∈ i.rule, rule.toList.all nameChar = true

instance (i : Item) : Decidable i.Named :=
  inferInstanceAs (Decidable (_ ∧ ∀ rule ∈ i.rule, rule.toList.all nameChar = true))

/-- An equality item is named when its attribute is a name. -/
theorem Item.named_equality {attr : String} (h : attr.toList.all nameChar = true ∧ attr ≠ "")
    (value : String) : (⟨attr, none, value⟩ : Item).Named := by
  refine ⟨h, ?_⟩
  intro rule hrule
  cases hrule

/-- An escaping of values the parser undoes, and that leaves no bracket and no star. -/
structure Escaping (esc : String → String) : Prop where
  decode : ∀ v : String, decodePiece (esc v).toList = some (utf8 v.toList)
  clean : ∀ v : String, ∀ c ∈ (esc v).toList, c ≠ ')' ∧ c ≠ '*'

/-- A text up to a character it does not hold is split off at that character. -/
theorem span_append_cons {c : Char} {body : List Char} (h : c ∉ body) (rest : List Char) :
    (body ++ c :: rest).span (· != c) = (body, c :: rest) := by
  have hbody : ∀ x ∈ body, (x != c) = true := by
    intro x hx
    have hne : x ≠ c := fun hxc => h (hxc ▸ hx)
    simpa using hne
  rw [List.span_eq_takeWhile_dropWhile, List.takeWhile_append_of_pos hbody,
    List.dropWhile_append_of_pos hbody]
  simp

/-- No name holds a character of the grammar. -/
theorem notMem_of_named {name : List Char} (h : name.all nameChar = true) {c : Char}
    (hc : nameChar c = false) : c ∉ name := by
  intro hmem
  rw [List.all_eq_true] at h
  rw [h c hmem] at hc
  cases hc

/-- The header of a named item is its attribute and its rule. -/
theorem parseHeader_header {i : Item} (h : i.Named) :
    parseHeader i.header.toList = some (i.attr, i.rule) := by
  obtain ⟨⟨hattr, _⟩, hrule⟩ := h
  have hcolon : ':' ∉ i.attr.toList := notMem_of_named hattr (by decide)
  unfold parseHeader Item.header
  cases hr : i.rule with
  | none =>
    rw [List.splitOn_eq_singleton hcolon]
    simp [String.ofList_toList]
  | some rule =>
    have hcolon' : ':' ∉ rule.toList := notMem_of_named (hrule rule (by simp [hr])) (by decide)
    have htext : (i.attr ++ ":" ++ rule ++ ":").toList =
        i.attr.toList ++ ':' :: (rule.toList ++ [':']) := by
      simp [String.toList_append]
    dsimp only
    rw [htext, List.splitOn_append_cons_self_of_not_mem hcolon,
      List.splitOn_append_cons_self_of_not_mem hcolon']
    simp [String.ofList_toList]

/-- The header of a named item holds no character of the grammar but the colon. -/
theorem notMem_header {i : Item} (h : i.Named) {c : Char} (hc : nameChar c = false)
    (hcolon : c ≠ ':') : c ∉ i.header.toList := by
  obtain ⟨⟨hattr, _⟩, hrule⟩ := h
  have ha := notMem_of_named hattr hc
  unfold Item.header
  cases hr : i.rule with
  | none => exact ha
  | some rule =>
    have hb := notMem_of_named (hrule rule (by simp [hr])) hc
    simp [String.toList_append, ha, hb, hcolon]

/-- The text between the brackets of a rendered item. -/
def Item.body (esc : String → String) (i : Item) : List Char :=
  i.header.toList ++ '=' :: (esc i.value).toList

/-- A rendered item between its brackets. -/
theorem Item.render_toList (esc : String → String) (i : Item) :
    (i.render esc).toList = '(' :: (i.body esc ++ [')']) := by
  simp [Item.render, Item.body, String.toList_append]

/-- The body of a rendered item is read as the item. -/
theorem parseItem_body {esc : String → String} (hesc : Escaping esc) {i : Item} (h : i.Named) :
    parseItem (i.body esc) = some i.filter := by
  have hequal : '=' ∉ i.header.toList := notMem_header h (by decide) (by decide)
  have hstar : '*' ∉ (esc i.value).toList := fun hmem => (hesc.clean i.value _ hmem).2 rfl
  unfold parseItem Item.body
  rw [span_append_cons hequal]
  simp only [parseHeader_header h, Option.bind_eq_bind, Option.bind_some,
    List.splitOn_eq_singleton hstar, List.mapM_cons, List.mapM_nil, hesc.decode]
  rfl

/-- A rendered item at the head of a text is read, and leaves the text behind it. -/
theorem parseFilter_item {esc : String → String} (hesc : Escaping esc) {i : Item} (h : i.Named)
    (n : ℕ) (rest : List Char) :
    parseFilter (n + 1) ((i.render esc).toList ++ rest) = some (i.filter, rest) := by
  have hclose : ')' ∉ i.body esc := by
    unfold Item.body
    have hheader : ')' ∉ i.header.toList := notMem_header h (by decide) (by decide)
    have hvalue : ')' ∉ (esc i.value).toList := fun hmem => (hesc.clean i.value _ hmem).1 rfl
    simp [hheader, hvalue]
  have hfirst : ∀ c rest', i.body esc = c :: rest' → c ≠ '&' ∧ c ≠ '|' ∧ c ≠ '!' := by
    intro c rest' hbody
    have hmem : c ∈ i.header.toList := by
      have hne : i.header.toList ≠ [] := by
        obtain ⟨⟨_, hattr⟩, _⟩ := h
        unfold Item.header
        cases i.rule with
        | none => simpa using hattr
        | some rule => simp [String.toList_append]
      obtain ⟨d, header, hheader⟩ := List.exists_cons_of_ne_nil hne
      unfold Item.body at hbody
      rw [hheader] at hbody ⊢
      obtain ⟨rfl, _⟩ := List.cons.inj hbody
      exact List.mem_cons_self
    refine ⟨?_, ?_, ?_⟩ <;>
      exact fun hc => notMem_header h (by decide) (by decide) (hc ▸ hmem)
  have htext : (i.render esc).toList ++ rest = '(' :: (i.body esc ++ ')' :: rest) := by
    rw [Item.render_toList]
    simp
  rw [htext]
  have hread : parseFilter (n + 1) ('(' :: (i.body esc ++ ')' :: rest)) =
      match (i.body esc ++ ')' :: rest).span (· != ')') with
      | (body, ')' :: rest) => (parseItem body).map fun f => (f, rest)
      | _ => none := by
    cases hbody : i.body esc with
    | nil => rfl
    | cons c body =>
      obtain ⟨hand, hor, hnot⟩ := hfirst c body hbody
      simp only [List.cons_append]
      rw [parseFilter.eq_def]
      split <;> simp_all
  rw [hread, span_append_cons hclose]
  simp [parseItem_body hesc h]

/-- Rendered items up to a closing bracket are read as the list of them. -/
theorem parseList_items {esc : String → String} (hesc : Escaping esc) {is : List Item}
    (h : ∀ i ∈ is, i.Named) {n : ℕ} (hn : is.length < n) (rest : List Char) :
    parseList n ((String.join (is.map (Item.render esc))).toList ++ ')' :: rest) =
      some (is.map Item.filter, rest) := by
  induction is generalizing n with
  | nil =>
    obtain ⟨m, rfl⟩ : ∃ m, n = m + 1 := ⟨n - 1, by simp at hn; omega⟩
    rfl
  | cons i is ih =>
    simp only [List.length_cons] at hn
    obtain ⟨m, rfl⟩ : ∃ m, n = m + 1 + 1 := ⟨n - 2, by omega⟩
    have htext : (String.join ((i :: is).map (Item.render esc))).toList ++ ')' :: rest =
        (i.render esc).toList ++
          ((String.join (is.map (Item.render esc))).toList ++ ')' :: rest) := by
      simp [String.toList_join]
    have hhead := parseFilter_item hesc (h i List.mem_cons_self) m
      ((String.join (is.map (Item.render esc))).toList ++ ')' :: rest)
    have htail := ih (fun j hj => h j (List.mem_cons_of_mem _ hj)) (n := m + 1) (by omega)
    have hread : ∀ cs, parseList (m + 1 + 1) ('(' :: cs) =
        match parseFilter (m + 1) ('(' :: cs) with
        | some (f, cs) => (parseList (m + 1) cs).map fun p => (f :: p.1, p.2)
        | none => none := by
      intro cs
      rw [parseList.eq_def]
      split <;> simp_all
    rw [htext, Item.render_toList, List.cons_append, hread, ← List.cons_append,
      ← Item.render_toList, hhead]
    change (parseList (m + 1) _).map _ = _
    rw [htail]
    rfl

/-- Every item of a rendered list takes a character at least. -/
theorem length_le_join (esc : String → String) (is : List Item) :
    is.length ≤ (String.join (is.map (Item.render esc))).toList.length := by
  induction is with
  | nil => simp
  | cons i is ih =>
    simp only [List.map_cons, String.join_cons, String.toList_append, List.length_append,
      List.length_cons, Item.render_toList]
    omega

/-- The server reads a rendered query as the filter it means. -/
theorem parse_render {esc : String → String} (hesc : Escaping esc) {q : Query}
    (h : ∀ i ∈ q.items, i.Named) : parse (q.render esc) = some q.filter := by
  have hlist : ∀ is : List Item, (∀ i ∈ is, i.Named) →
      parseList ((String.join (is.map (Item.render esc))).toList.length + 2)
        ((String.join (is.map (Item.render esc))).toList ++ [')']) =
          some (is.map Item.filter, []) := by
    intro is his
    have hle := length_le_join esc is
    exact parseList_items hesc his (by omega) []
  unfold parse
  cases q with
  | item i =>
    have hread := parseFilter_item hesc (h i (List.mem_singleton_self i)) ((i.body esc).length + 1) []
    have hlen : (i.render esc).toList.length = (i.body esc).length + 1 + 1 := by
      rw [Item.render_toList]
      simp
    rw [List.append_nil] at hread
    rw [Query.render, hlen, hread]
    rfl
  | all is =>
    have htext : ((Query.all is).render esc).toList =
        '(' :: '&' :: ((String.join (is.map (Item.render esc))).toList ++ [')']) := by
      simp [Query.render, String.toList_append]
    have hread := hlist is h
    rw [htext]
    simp only [List.length_cons, List.length_append, List.length_nil]
    rw [parseFilter, hread]
    rfl
  | any is =>
    have htext : ((Query.any is).render esc).toList =
        '(' :: '|' :: ((String.join (is.map (Item.render esc))).toList ++ [')']) := by
      simp [Query.render, String.toList_append]
    have hread := hlist is h
    rw [htext]
    simp only [List.length_cons, List.length_append, List.length_nil]
    rw [parseFilter, hread]
    rfl

/-- An object passes an item's filter when it answers the item. -/
@[simp] theorem Item.holds_filter (test : String → Option String → List Octets → Bool)
    (i : Item) : i.filter.holds test = test i.attr i.rule [utf8 i.value.toList] := rfl

/-- An object passes a list of items when it answers each of them. -/
theorem allHold_items (test : String → Option String → List Octets → Bool) (is : List Item) :
    allHold test (is.map Item.filter) =
      is.all fun i => test i.attr i.rule [utf8 i.value.toList] := by
  induction is with
  | nil => rfl
  | cons i is ih => simp [allHold, ih]

/-- An object passes one of a list of items when it answers one of them. -/
theorem anyHolds_items (test : String → Option String → List Octets → Bool) (is : List Item) :
    anyHolds test (is.map Item.filter) =
      is.any fun i => test i.attr i.rule [utf8 i.value.toList] := by
  induction is with
  | nil => rfl
  | cons i is ih => simp [anyHolds, ih]

end Kerbridge.LdapFilter

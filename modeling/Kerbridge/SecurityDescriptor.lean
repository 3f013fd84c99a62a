import Kerbridge.UnicodeText

/-!
# Security descriptors in text form

An owner, a group, a list of entries that decides access and one that decides auditing.
Access is decided by the first entry that applies, so what an entry does depends on where
it stands. Here are the text form, and the search for where the first list begins.
-/

namespace Kerbridge.Sddl

/-- What a list of entries is marked with. -/
inductive AclFlag where
  | P
  | AR
  | AI

/-- The letters of a mark. -/
def AclFlag.print : AclFlag → List Char
  | .P => ['P']
  | .AR => ['A', 'R']
  | .AI => ['A', 'I']

/-- One entry, as its text in parentheses. -/
structure Ace where
  text : List Char
  opened : text.head? = some '('
  closed : text.getLast? = some ')'

/-- The fields of an entry: type, flags, rights, object, inherited object, trustee, and
possibly a resource attribute or a condition. -/
def Ace.fields (a : Ace) : List (List Char) := (a.text.tail.dropLast).splitOn ';'

/-- A field in capital letters. -/
def Ace.field (a : Ace) (n : ℕ) : List Char := (a.fields.getD n []).map Char.toUpper

/-- Two letters at a time. -/
def pairs : List Char → List (List Char)
  | x :: y :: rest => [x, y] :: pairs rest
  | _ => []

/-- The value of hexadecimal digits. -/
def hexMask (digits : List Char) : ℕ :=
  digits.foldl (fun n c => 16 * n + if c.isDigit then c.toNat - 48 else c.toNat - 55) 0

/-- Rights under which a property can be written: that of writing properties, and the generic
ones that include it, by their letters or as bits of a mask. -/
def mayWrite : List Char → Bool
  | '0' :: 'X' :: digits =>
    (hexMask digits).testBit 5 || (hexMask digits).testBit 28 || (hexMask digits).testBit 30
  | letters => (pairs letters).any fun p => p ∈ [['W', 'P'], ['G', 'A'], ['G', 'W']]

/-- An entry that lets the object itself write: it allows, it applies here, and its trustee
is the object. -/
def Ace.letsSelfWrite (a : Ace) : Bool :=
  a.field 0 ∈ [['A'], ['O', 'A'], ['X', 'A'], ['Z', 'A']] && ['I', 'O'] ∉ pairs (a.field 1) &&
    mayWrite (a.field 2) && a.field 5 = ['P', 'S']

/-- Two entries that differ in the case of letters only. -/
def Ace.Same (a b : Ace) : Prop := a.text.map Char.toLower = b.text.map Char.toLower

/-- A list of entries. -/
structure Acl where
  flags : List AclFlag
  aces : List Ace

/-- A list of entries, as text. -/
def Acl.print (acl : Acl) : List Char :=
  acl.flags.flatMap AclFlag.print ++ acl.aces.flatMap Ace.text

/-- A security identifier. -/
abbrev Sid := {text : List Char // ':' ∉ text}

/-- A security descriptor. -/
structure Descriptor where
  owner : Option Sid
  group : Option Sid
  dacl : Option Acl
  sacl : Option Acl

/-- One part of a descriptor, behind its letter. -/
def part {α : Type} (letter : Char) (print : α → List Char) (value : Option α) : List Char :=
  value.elim [] fun v => letter :: ':' :: print v

/-- A descriptor as text. -/
def Descriptor.print (d : Descriptor) : List Char :=
  part 'O' Subtype.val d.owner ++ part 'G' Subtype.val d.group ++ part 'D' Acl.print d.dacl ++
    part 'S' Acl.print d.sacl

/-- A descriptor with nothing but the list that decides access. -/
def Descriptor.daclOnly (d : Descriptor) : Descriptor := ⟨none, none, d.dacl, none⟩

/-- A descriptor with one more entry, before every other. -/
def Descriptor.prepend (d : Descriptor) (a : Ace) : Descriptor :=
  { d with dacl := some ⟨d.dacl.elim [] Acl.flags, a :: d.dacl.elim [] Acl.aces⟩ }

/-- The entry stands ahead of every entry that lets the object itself write. -/
def Descriptor.InForce (a : Ace) (d : Descriptor) : Prop :=
  ∃ acl before own after, d.dacl = some acl ∧ acl.aces = before ++ own :: after ∧ own.Same a ∧
    ∀ b ∈ before, b.letsSelfWrite = false

/-- The second descriptor is the first, or that with the entry before every other. -/
def Kept (a : Ace) (d d' : Descriptor) : Prop := d' = d ∨ d' = d.prepend a

/-- A kept descriptor has its owner, its group and its auditing, and every entry there was. -/
theorem Kept.rest {a : Ace} {d d' : Descriptor} (h : Kept a d d') :
    d'.owner = d.owner ∧ d'.group = d.group ∧ d'.sacl = d.sacl ∧
      d.dacl.elim [] Acl.flags = d'.dacl.elim [] Acl.flags ∧
        d.dacl.elim [] Acl.aces <:+ d'.dacl.elim [] Acl.aces := by
  rcases h with rfl | rfl
  · exact ⟨rfl, rfl, rfl, rfl, List.suffix_rfl⟩
  · exact ⟨rfl, rfl, rfl, rfl, List.suffix_cons _ _⟩

/-- An entry before every other is in force. -/
theorem inForce_prepend (a : Ace) (d : Descriptor) : (d.prepend a).InForce a :=
  ⟨_, [], a, d.dacl.elim [] Acl.aces, rfl, rfl, rfl, by simp⟩

section Insertion

/-- `insert_first_ace` from a position on: behind the first `D:` whose capital letters are
followed by an entry. -/
def insertAt (ace : List Char) : List Char → Option (List Char)
  | 'D' :: ':' :: rest =>
    match rest.dropWhile Char.isUpper with
    | '(' :: more => some ('D' :: ':' :: rest.takeWhile Char.isUpper ++ ace ++ '(' :: more)
    | _ => (insertAt ace rest).map fun out => 'D' :: ':' :: out
  | c :: rest => (insertAt ace rest).map (c :: ·)
  | [] => none

/-- `insert_first_ace`. -/
def insertFirstAce (sddl ace : String) : Except String String :=
  match insertAt ace.toList sddl.toList with
  | some out => .ok (String.ofList out)
  | none => .error ("no DACL to insert into: " ++ sddl)

/-- A character that is not followed by a colon is passed over. -/
theorem insertAt_cons {ace rest : List Char} {c : Char} (h : c ≠ 'D' ∨ rest.head? ≠ some ':') :
    insertAt ace (c :: rest) = (insertAt ace rest).map (c :: ·) := by
  rw [insertAt]
  rintro more rfl rfl
  simp at h

/-- Text without a colon is passed over. -/
theorem insertAt_append {ace text rest : List Char} (h : ':' ∉ text)
    (hrest : rest.head? ≠ some ':') :
    insertAt ace (text ++ rest) = (insertAt ace rest).map (text ++ ·) := by
  induction text with
  | nil => simp
  | cons c text ih =>
    have hc : ':' ≠ c ∧ ':' ∉ text := by simpa using h
    have hnext : (text ++ rest).head? ≠ some ':' := by
      cases text with
      | nil => exact hrest
      | cons d text => simpa using fun hd => hc.2 (by simp [hd])
    rw [List.cons_append, insertAt_cons (Or.inr hnext), ih hc.2, Option.map_map]
    rfl

/-- An owner or a group is passed over. -/
theorem insertAt_sid {ace rest : List Char} {letter : Char} (hletter : letter ≠ 'D')
    (sid : Option Sid) (hrest : rest.head? ≠ some ':') :
    insertAt ace (part letter Subtype.val sid ++ rest) =
      (insertAt ace rest).map (part letter Subtype.val sid ++ ·) := by
  cases sid with
  | none => simp [part]
  | some sid =>
    change insertAt ace (letter :: ':' :: (sid.1 ++ rest)) = _
    rw [insertAt_cons (Or.inl hletter), insertAt_cons (Or.inl (by decide)),
      insertAt_append sid.2 hrest, Option.map_map, Option.map_map]
    rfl

/-- The marks of a list are capital letters. -/
theorem flags_upper (flags : List AclFlag) :
    ∀ c ∈ flags.flatMap AclFlag.print, c.isUpper = true := by
  intro c hc
  obtain ⟨flag, _, hflag⟩ := List.mem_flatMap.mp hc
  have hall : ∀ flag : AclFlag, ∀ c ∈ flag.print, c.isUpper = true := by
    intro flag
    cases flag with
    | P => exact List.all_eq_true.mp (by decide)
    | AR => exact List.all_eq_true.mp (by decide)
    | AI => exact List.all_eq_true.mp (by decide)
  exact hall flag c hflag

/-- An entry goes where the list that decides access begins, if it holds one. -/
theorem insertAt_print {d : Descriptor} {acl : Acl} (a : Ace) (hd : d.dacl = some acl)
    (hne : acl.aces ≠ []) : insertAt a.text d.print = some (d.prepend a).print := by
  obtain ⟨owner, group, dacl, sacl⟩ := d
  cases hd
  obtain ⟨flags, aces⟩ := acl
  cases aces with
  | nil => exact absurd rfl hne
  | cons first aces =>
    obtain ⟨more, hmore⟩ : ∃ more, first.text = '(' :: more := by
      have hopened := first.opened
      cases htext : first.text with
      | nil =>
        rw [htext] at hopened
        cases hopened
      | cons c more =>
        rw [htext] at hopened
        cases hopened
        exact ⟨more, rfl⟩
    have htext : Descriptor.print ⟨owner, group, some ⟨flags, first :: aces⟩, sacl⟩ =
        part 'O' Subtype.val owner ++ (part 'G' Subtype.val group ++
          ('D' :: ':' :: (flags.flatMap AclFlag.print ++
            '(' :: (more ++ aces.flatMap Ace.text ++ part 'S' Acl.print sacl)))) := by
      simp [Descriptor.print, part, Acl.print, hmore]
    have hdrop : ∀ rest : List Char, (flags.flatMap AclFlag.print ++
        '(' :: rest).dropWhile Char.isUpper = '(' :: rest := by
      intro rest
      rw [List.dropWhile_append_of_pos (flags_upper flags), List.dropWhile_cons_of_neg (by decide)]
    have htake : ∀ rest : List Char, (flags.flatMap AclFlag.print ++
        '(' :: rest).takeWhile Char.isUpper = flags.flatMap AclFlag.print := by
      intro rest
      rw [List.takeWhile_append_of_pos (flags_upper flags), List.takeWhile_cons_of_neg (by decide),
        List.append_nil]
    have hgroup : (part 'G' Subtype.val group ++ ('D' :: ':' :: (flags.flatMap AclFlag.print ++
        '(' :: (more ++ aces.flatMap Ace.text ++ part 'S' Acl.print sacl)))).head? ≠ some ':' := by
      cases group with
      | none => simp [part]
      | some g => simp [part]
    rw [htext, insertAt_sid (by decide) owner hgroup, insertAt_sid (by decide) group (by simp),
      insertAt, hdrop]
    simp [htake, Descriptor.print, Descriptor.prepend, part, Acl.print, hmore]

end Insertion

end Kerbridge.Sddl

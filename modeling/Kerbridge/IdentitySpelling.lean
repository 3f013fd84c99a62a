import Kerbridge.Fallible
import Kerbridge.StoredIdentity

/-!
# The spelling of a stored identity

Reading a stored value back gives the identity it was written from. The other
way round, an accepted value is the one spelling of its identity unless it spells
the escaped delimiter in lowercase, which the reader accepts and the writer
never produces.
-/

namespace Kerbridge.StoredIdentity

open UnicodeText Fallible

/-- The escaped delimiter in lowercase. -/
def lowercaseEscape : List Char := ['%', '7', 'c']

/-- A character that is no escape introducer begins no lowercase escape. -/
theorem lowercaseEscape_infix_cons {c : Char} (hc : c ≠ '%') (l : List Char) :
    lowercaseEscape <:+: c :: l ↔ lowercaseEscape <:+: l := by
  rw [List.infix_cons_iff]
  constructor
  · intro h
    rcases h with h | h
    · obtain ⟨t, ht⟩ := h
      cases ht
      exact absurd rfl hc
    · exact h
  · exact Or.inr

/-- A pattern without the separator that begins a text ends before the first one. -/
theorem prefix_append_sep {c : Char} {p : List Char} (hp : c ∉ p) (a b : List Char) :
    p <+: a ++ c :: b ↔ p <+: a := by
  induction p generalizing a with
  | nil => simp
  | cons x p ih =>
    rw [List.mem_cons, not_or] at hp
    cases a with
    | nil =>
      constructor
      · intro h
        rw [List.nil_append, List.cons_prefix_cons] at h
        exact absurd h.1.symm hp.1
      · intro h
        exact absurd (List.prefix_nil.mp h) (List.cons_ne_nil x p)
    | cons y a =>
      rw [List.cons_append, List.cons_prefix_cons, List.cons_prefix_cons, ih hp.2]

/-- A pattern without the separator lies on one side of it. -/
theorem infix_append_sep {c : Char} {p : List Char} (hp : c ∉ p) (hne : p ≠ [])
    (a b : List Char) : p <:+: a ++ c :: b ↔ p <:+: a ∨ p <:+: b := by
  induction a with
  | nil =>
    rw [List.nil_append, List.infix_cons_iff, List.infix_nil]
    have hhead : ¬ p <+: c :: b := fun h =>
      hne (List.prefix_nil.mp ((prefix_append_sep hp [] b).mp h))
    simp [hhead, hne]
  | cons x a ih =>
    have hhead := prefix_append_sep hp (x :: a) b
    rw [List.cons_append] at hhead ⊢
    rw [List.infix_cons_iff, List.infix_cons_iff, ih, hhead, or_assoc]

/-- An escape is a lowercase one, or it hides none. -/
theorem lowercaseEscape_infix_escape {hi lo : Char} (hhi : hi ≠ '%') (hlo : lo ≠ '%')
    (l : List Char) :
    lowercaseEscape <:+: '%' :: hi :: lo :: l ↔
      (hi = '7' ∧ lo = 'c') ∨ lowercaseEscape <:+: l := by
  rw [List.infix_cons_iff, lowercaseEscape_infix_cons hhi, lowercaseEscape_infix_cons hlo]
  have hlower : lowercaseEscape <+: '%' :: hi :: lo :: l ↔ hi = '7' ∧ lo = 'c' := by
    rw [lowercaseEscape, List.cons_prefix_cons, List.cons_prefix_cons, List.cons_prefix_cons]
    constructor
    · rintro ⟨_, h7, hc, _⟩
      exact ⟨h7.symm, hc.symm⟩
    · rintro ⟨rfl, rfl⟩
      exact ⟨rfl, rfl, rfl, List.nil_prefix⟩
  rw [hlower]

/-- A character and its uppercase form are one, or it is a lowercase letter. -/
theorem toUpper_eq {c d : Char} (h : c.toUpper = d) :
    c = d ∨ 97 ≤ c.toNat ∧ c.toNat = d.toNat + 32 := by
  unfold Char.toUpper at h
  split at h
  · rename_i hc
    right
    subst h
    have hlo : 97 ≤ c.val.toNat := UInt32.le_iff_toNat_le.mp hc.1
    have hhi : c.val.toNat ≤ 122 := UInt32.le_iff_toNat_le.mp hc.2
    have hshift : ('A'.val - 'a'.val).toNat = 4294967264 := by decide
    refine ⟨hlo, ?_⟩
    change c.val.toNat = (c.val + ('A'.val - 'a'.val)).toNat + 32
    rw [UInt32.toNat_add, hshift]
    omega
  · exact .inl h

/-- The digit is the only character with its uppercase form. -/
theorem eq_of_toUpper_eq_five {c : Char} (h : c.toUpper = '5') : c = '5' := by
  rcases toUpper_eq h with h | ⟨hlo, h⟩
  · exact h
  · have hfive : ('5' : Char).toNat = 53 := rfl
    omega

/-- Two characters have the delimiter escape's uppercase letter. -/
theorem eq_of_toUpper_eq_C {c : Char} (h : c.toUpper = 'C') : c = 'C' ∨ c = 'c' := by
  rcases toUpper_eq h with h | ⟨_, h⟩
  · exact .inl h
  · right
    apply Char.ext
    apply UInt32.toNat_inj.mp
    exact h

/-- A field that is read is the escaped form of what it reads as, unless it spells
the delimiter in lowercase. -/
theorem escape_unescapeLoop {field s : List Char} (h : unescapeLoop field = .ok s)
    (hbar : '|' ∉ field) :
    s.flatMap escapeChar = field ↔ ¬ lowercaseEscape <:+: field := by
  fun_induction unescapeLoop field generalizing s with
  | case1 =>
    cases h
    simp [lowercaseEscape]
  | case2 c rest hc ih =>
    rw [map_ok_iff] at h
    obtain ⟨s, hs, rfl⟩ := h
    rw [List.mem_cons, not_or] at hbar
    have hself : escapeChar c = [c] := by simp [escapeChar, hc, Ne.symm hbar.1]
    rw [List.flatMap_cons, hself, List.singleton_append, List.cons.injEq,
      lowercaseEscape_infix_cons hc]
    simpa using ih hs hbar.2
  | case3 c hc hi lo rest hesc ih =>
    rw [map_ok_iff] at h
    obtain ⟨s, hs, rfl⟩ := h
    obtain rfl := not_not.mp hc
    obtain ⟨rfl, hlo⟩ := hesc
    obtain rfl := eq_of_toUpper_eq_five hlo
    have hrest : '|' ∉ rest := fun hm => hbar (by simp [hm])
    rw [List.flatMap_cons, lowercaseEscape_infix_escape (by decide) (by decide)]
    simpa [escapeChar] using ih hs hrest
  | case4 c hc hi lo rest hesc hbarEsc ih =>
    rw [map_ok_iff] at h
    obtain ⟨s, hs, rfl⟩ := h
    obtain rfl := not_not.mp hc
    obtain ⟨rfl, hlo⟩ := hbarEsc
    have hrest : '|' ∉ rest := fun hm => hbar (by simp [hm])
    rcases eq_of_toUpper_eq_C hlo with rfl | rfl
    · rw [List.flatMap_cons, lowercaseEscape_infix_escape (by decide) (by decide)]
      simpa [escapeChar] using ih hs hrest
    · rw [List.flatMap_cons, lowercaseEscape_infix_escape (by decide) (by decide)]
      simp [escapeChar]
  | case5 => cases h
  | case6 => cases h

/-- A field that is read back holds the delimiter as an escape in lowercase, or is
the escaped form of what was read. -/
theorem escapeField_unescapeField {field text : String} (h : unescapeField field = .ok text)
    (hbar : '|' ∉ field.toList) :
    escapeField text = field ↔ ¬ lowercaseEscape <:+: field.toList := by
  obtain ⟨s, hs, rfl⟩ := map_ok_iff.mp h
  rw [escapeField, String.toList_ofList, ← escape_unescapeLoop hs hbar]
  constructor
  · intro heq
    rw [← heq, String.toList_ofList]
  · intro heq
    rw [heq, String.ofList_toList]

/-- What an accepted stored value is made of. -/
theorem decode_ok {value : String} {id : ExternalIdentity}
    (h : ExternalIdentity.decode value = .ok id) :
    ∃ name subject, split '|' value = [versionTag, name, subject] ∧
      unescapeField name = .ok id.source.name ∧ unescapeField subject = .ok id.subject := by
  unfold ExternalIdentity.decode at h
  split at h
  · rename_i tag name subject hsplit
    obtain ⟨htag, h⟩ := refuse_ok_iff.mp h
    obtain ⟨nameText, hname, h⟩ := bind_ok_iff.mp h
    obtain ⟨source, hsource, h⟩ := bind_ok_iff.mp h
    obtain ⟨subjectText, hsubject, h⟩ := bind_ok_iff.mp h
    obtain ⟨rfl, rfl⟩ := ExternalIdentity.new_ok h
    refine ⟨name, subject, ?_, ?_, hsubject⟩
    · rw [hsplit, not_not.mp htag]
    · rw [hname, Source.new_ok hsource]
  · cases h

/-- Reading a stored value back inverts storing it, and an accepted value is the
spelling that storing its identity gives exactly when it spells no delimiter in
lowercase. -/
theorem stored_spelling (stored : ExternalIdentity) {value : String} {id : ExternalIdentity}
    (h : ExternalIdentity.decode value = .ok id) :
    ExternalIdentity.decode stored.encode = .ok stored ∧
      (id.encode = value ↔ ¬ lowercaseEscape <:+: value.toList) := by
  refine ⟨stored.decode_of_encode, ?_⟩
  obtain ⟨name, subject, hsplit, hname, hsubject⟩ := decode_ok h
  have hbar : ∀ f ∈ [versionTag, name, subject], '|' ∉ f.toList := by
    intro f hf
    exact notMem_of_mem_split (hsplit ▸ hf)
  have htext : value.toList =
      versionTag.toList ++ '|' :: (name.toList ++ '|' :: subject.toList) := by
    have hjoin := intercalate_split '|' value
    rw [hsplit] at hjoin
    simpa [List.intercalate] using hjoin.symm
  have hfields : id.encode = value ↔
      escapeField id.source.name = name ∧ escapeField id.subject = subject := by
    constructor
    · intro h
      rw [← h, ExternalIdentity.encode, split_encodeFields] at hsplit
      simpa using hsplit
    · rintro ⟨rfl, rfl⟩
      apply String.toList_injective
      rw [htext]
      simp [ExternalIdentity.encode, encodeFields]
  have htag : ¬ lowercaseEscape <:+: versionTag.toList := by decide
  have hpattern : '|' ∉ lowercaseEscape := by decide
  rw [hfields, escapeField_unescapeField hname (hbar name (by simp)),
    escapeField_unescapeField hsubject (hbar subject (by simp)), htext,
    infix_append_sep hpattern (by decide), infix_append_sep hpattern (by decide)]
  tauto

/-- The identity of a source and a subject that are both the delimiter. -/
def delimiterIdentity : ExternalIdentity := ⟨⟨"|", by decide⟩, "|", by decide, by decide⟩

/-- The law of the spelling, read at a value with both of its escapes in uppercase. -/
theorem stored_spelling_delimiter :
    ExternalIdentity.decode "kb1|%7C|%7C" = .ok delimiterIdentity ∧
      (delimiterIdentity.encode = "kb1|%7C|%7C" ↔
        ¬ lowercaseEscape <:+: "kb1|%7C|%7C".toList) := by
  have hread : ExternalIdentity.decode "kb1|%7C|%7C" = .ok delimiterIdentity := by decide +kernel
  exact ⟨hread, (stored_spelling delimiterIdentity hread).2⟩

/-- Two spellings of one identity are accepted, and the second is not its stored text. -/
theorem second_spelling_accepted :
    ExternalIdentity.decode "kb1|%7C|%7c" = .ok delimiterIdentity ∧
      ExternalIdentity.decode "kb1|%7C|%7C" = .ok delimiterIdentity ∧
      delimiterIdentity.encode ≠ "kb1|%7C|%7c" := by
  refine ⟨?_, ?_, ?_⟩
  · decide +kernel
  · decide +kernel
  · decide

end Kerbridge.StoredIdentity

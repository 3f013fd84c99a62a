import Kerbridge.DeviceGrant
import Kerbridge.Fallible

/-!
# Reading a device grant back

What the reader accepts is well formed, and a well-formed grant is read back as
it was written: the label cannot spell the delimiter, and every other field is
of characters the delimiter is not among.
-/

namespace Kerbridge.DeviceGrants

open UnicodeText StoredIdentity Fallible

/-- The stamps of a stored value are below this. -/
def stampBound : ℕ := 0x10000000000000000

/-- What the reader checks of the fields of a value. -/
structure DeviceGrant.WellFormed (g : DeviceGrant) : Prop where
  label : g.label.toList.any isControl = false
  thumbprint : isThumbprint g.thumbprint = true
  start : g.start < stampBound
  stop : g.stop < stampBound
  seen : ∀ n ∈ g.seen, n < stampBound

/-- What the reader has checked of the fields it has read so far. -/
structure Fields.Checked (f : Fields) : Prop where
  label : ∀ text ∈ f.label, text.toList.any isControl = false
  alg : ∀ p ∈ f.alg, isThumbprint p.2 = true
  start : ∀ n ∈ f.start, n < stampBound
  stop : ∀ n ∈ f.stop, n < stampBound
  seen : ∀ n ∈ f.seen, n < stampBound

/-- A number that is read is below the bound of its type. -/
theorem parseUnsigned_lt {bound n : ℕ} {s : String} (h : parseUnsigned bound s = some n) :
    n < bound := by
  simp only [parseUnsigned, Option.ite_none_left_eq_some, Option.ite_none_right_eq_some,
    Option.some.injEq] at h
  obtain ⟨_, hlt, heq⟩ := h
  rw [← heq]
  exact hlt

/-- A stamp that is read is one. -/
theorem epoch_ok {raw key : String} {n : ℕ} (h : epoch raw key = .ok n) : n < stampBound := by
  unfold epoch at h
  cases hp : parseUnsigned 0x10000000000000000 raw with
  | none => simp [hp] at h
  | some m =>
    rw [hp] at h
    cases h
    exact parseUnsigned_lt hp

/-- Reading one more field keeps what was checked. -/
theorem readField_checked {f f' : Fields} {field : String} (hf : f.Checked)
    (h : readField f field = .ok f') : f'.Checked := by
  unfold readField at h
  cases hs : splitOnce '=' field with
  | none => simp [hs] at h
  | some p =>
    obtain ⟨key, raw⟩ := p
    simp only [hs] at h
    obtain ⟨_, h⟩ := refuse_ok_iff.mp h
    cases ha : algorithm key with
    | some known =>
      simp only [ha] at h
      obtain ⟨_, h⟩ := refuse_ok_iff.mp h
      obtain ⟨ht, h⟩ := refuse_ok_iff.mp h
      cases h
      exact { hf with alg := by simpa using ht }
    | none =>
      simp only [ha] at h
      split at h
      · split at h
        · cases h
        · rename_i text _
          obtain ⟨hl, h⟩ := refuse_ok_iff.mp h
          cases h
          exact { hf with label := by simpa using hl }
      · split at h
        · obtain ⟨n, hn, rfl⟩ := map_ok_iff.mp h
          exact { hf with start := by simpa using epoch_ok hn }
        · split at h
          · obtain ⟨n, hn, rfl⟩ := map_ok_iff.mp h
            exact { hf with stop := by simpa using epoch_ok hn }
          · split at h
            · obtain ⟨n, hn, rfl⟩ := map_ok_iff.mp h
              exact { hf with seen := by simpa using epoch_ok hn }
            · cases h
              exact { hf with }

/-- Reading several fields keeps what was checked. -/
theorem foldlM_checked {f f' : Fields} {fields : List String} (hf : f.Checked)
    (h : fields.foldlM readField f = .ok f') : f'.Checked := by
  induction fields generalizing f with
  | nil =>
    cases h
    exact hf
  | cons field fields ih =>
    rw [List.foldlM_cons] at h
    obtain ⟨g, hg, h⟩ := bind_ok_iff.mp h
    exact ih (readField_checked hf hg) h

/-- A value that is read is a well-formed grant. -/
theorem decode_wellFormed {value : String} {g : DeviceGrant}
    (h : DeviceGrant.decode value = .ok g) : g.WellFormed := by
  unfold DeviceGrant.decode at h
  cases hp : stripPrefix value grantPrefix with
  | none => simp [hp] at h
  | some payload =>
    simp only [hp] at h
    obtain ⟨f, hf, h⟩ := bind_ok_iff.mp h
    have hempty : Fields.Checked {} := ⟨by simp, by simp, by simp, by simp, by simp⟩
    have hc := foldlM_checked hempty hf
    split at h
    · cases h
    · cases h
    · cases h
    · rename_i alg thumbprint start stop halg hstart hstop
      cases h
      refine ⟨?_, hc.alg _ halg, hc.start _ hstart, hc.stop _ hstop, hc.seen⟩
      cases hl : f.label with
      | none => rfl
      | some text => exact hc.label text hl

/-- A number is read back from its decimal text. -/
theorem parseUnsigned_toString {bound n : ℕ} (h : n < bound) :
    parseUnsigned bound (toString n) = some n := by
  have htext : (toString n).toList = Nat.toDigits 10 n := by
    rw [Nat.toString_eq_repr, Nat.toList_repr]
  have hdigit : ∀ c ∈ Nat.toDigits 10 n, c.isDigit = true := fun c hc =>
    Nat.isDigit_of_mem_toDigits (by decide) (by decide) hc
  have hvalue : (Nat.toDigits 10 n).foldl (fun acc c => 10 * acc + (c.toNat - 48)) 0 = n :=
    Nat.ofDigitChars_ten_toDigits
  have hne : Nat.toDigits 10 n ≠ [] := Nat.toDigits_ne_nil
  cases hd : Nat.toDigits 10 n with
  | nil => exact absurd hd hne
  | cons c cs =>
    have hplus : c ≠ '+' := by
      rintro rfl
      have hc := hdigit '+' (by simp [hd])
      simp at hc
    have hall : (c :: cs).all Char.isDigit = true := by
      rw [← hd]
      exact List.all_eq_true.mpr hdigit
    rw [hd] at hvalue
    unfold parseUnsigned
    rw [htext, hd]
    split
    · rename_i rest heq
      cases heq
      exact absurd rfl hplus
    · simp only [List.isEmpty_cons, hall, Bool.not_true, Bool.or_false, Bool.false_eq_true,
        if_false, hvalue, h, if_true]

/-- A stamp is read back from its decimal text. -/
theorem epoch_toString {n : ℕ} (h : n < stampBound) (key : String) :
    epoch (toString n) key = .ok n := by
  have hread : parseUnsigned 0x10000000000000000 (toString n) = some n := parseUnsigned_toString h
  unfold epoch
  rw [hread]

/-- A field is cut at its first equals sign. -/
theorem splitOnce_field {c : Char} {key : String} (h : c ∉ key.toList) (raw : String) :
    splitOnce c (key ++ String.ofList [c] ++ raw) = some (key, raw) := by
  have htext : (key ++ String.ofList [c] ++ raw).toList = key.toList ++ c :: raw.toList := by
    simp [String.toList_append]
  have hpass : ∀ x ∈ key.toList, (x != c) = true := by
    intro x hx
    have hne : x ≠ c := fun heq => h (heq ▸ hx)
    simpa using hne
  unfold splitOnce beforeFirst
  rw [htext, List.dropWhile_append_of_pos hpass, List.takeWhile_append_of_pos hpass]
  simp [String.ofList_toList]

/-- The fields a grant is stored as, each a key and its text. -/
def DeviceGrant.fields (g : DeviceGrant) : List (String × String) :=
  [("label", escapeField g.label), (g.alg.name, g.thumbprint), ("start", toString g.start),
    ("end", toString g.stop)] ++ g.seen.toList.map fun n => ("seen", toString n)

/-- One field as it is stored. -/
def fieldText (p : String × String) : String := p.1 ++ "=" ++ p.2

/-- A stored grant is its tag and its fields, joined by the delimiter. -/
theorem DeviceGrant.encode_eq (g : DeviceGrant) :
    g.encode.toList = grantPrefix.toList ++
      ['|'].intercalate (g.fields.map fun p => (fieldText p).toList) := by
  cases hs : g.seen with
  | none => simp [DeviceGrant.encode, DeviceGrant.fields, fieldText, hs, List.intercalate]
  | some n => simp [DeviceGrant.encode, DeviceGrant.fields, fieldText, hs, List.intercalate]

/-- The decimal text of a number holds no delimiter. -/
theorem delimiter_notMem_toDigits (n : ℕ) : '|' ∉ Nat.toDigits 10 n := by
  intro h
  have hdigit := Nat.isDigit_of_mem_toDigits (by decide) (by decide) h
  simp at hdigit

/-- A thumbprint holds no delimiter. -/
theorem delimiter_notMem_thumbprint {s : String} (h : isThumbprint s = true) :
    '|' ∉ s.toList := by
  intro hmem
  rw [isThumbprint, Bool.and_eq_true, List.all_eq_true] at h
  have hc := h.2 '|' hmem
  simp [b64urlValue] at hc

/-- No field of a grant holds the delimiter, whatever its label is. -/
theorem DeviceGrant.delimiter_notMem {g : DeviceGrant} (h : isThumbprint g.thumbprint = true) :
    ∀ p ∈ g.fields, '|' ∉ (fieldText p).toList := by
  have hlabel : '|' ∉ (escapeField g.label).toList := by
    rw [escapeField, String.toList_ofList]
    exact delimiter_notMem_escape _
  have hthumb := delimiter_notMem_thumbprint h
  intro p hp
  rw [DeviceGrant.fields, List.mem_append] at hp
  rcases hp with hp | hp
  · simp only [List.mem_cons, List.not_mem_nil, or_false] at hp
    rcases hp with rfl | rfl | rfl | rfl
    · simp [fieldText, hlabel]
    · cases g.alg with
      | es256 => simp [fieldText, Algorithm.name, hthumb]
    · simp [fieldText, delimiter_notMem_toDigits]
    · simp [fieldText, delimiter_notMem_toDigits]
  · obtain ⟨n, _, rfl⟩ := List.mem_map.mp hp
    simp [fieldText, delimiter_notMem_toDigits]

/-- The payload of a grant is cut into its fields, whatever its label is. -/
theorem DeviceGrant.split_payload {g : DeviceGrant} (h : isThumbprint g.thumbprint = true)
    {payload : String}
    (hp : payload.toList = ['|'].intercalate (g.fields.map fun p => (fieldText p).toList)) :
    split '|' payload = g.fields.map fieldText := by
  have hfree : ∀ l ∈ g.fields.map fun p => (fieldText p).toList, '|' ∉ l := by
    intro l hl
    obtain ⟨p, hp, rfl⟩ := List.mem_map.mp hl
    exact DeviceGrant.delimiter_notMem h p hp
  have hne : (g.fields.map fun p => (fieldText p).toList) ≠ [] := by simp [DeviceGrant.fields]
  unfold split
  rw [hp, List.splitOn_intercalate '|' hfree hne, List.map_map]
  refine List.map_congr_left ?_
  intro p _
  simp [String.ofList_toList]

/-- A text that begins with a pattern is cut behind it. -/
theorem stripPrefix_append {s pattern payload : String}
    (h : s.toList = pattern.toList ++ payload.toList) : stripPrefix s pattern = some payload := by
  have hstart : startsWith s pattern = true := by
    rw [startsWith, h, List.isPrefixOf_iff_prefix]
    exact List.prefix_append _ _
  rw [stripPrefix, if_pos hstart, h, List.drop_left, String.ofList_toList]

/-- A stored field is cut into its key and its text. -/
theorem splitOnce_fieldText {key : String} (h : '=' ∉ key.toList) (raw : String) :
    splitOnce '=' (fieldText (key, raw)) = some (key, raw) :=
  splitOnce_field h raw

/-- The label is read when it is the first and holds no control character. -/
theorem readField_label {f : Fields} {text : String} (hnew : "label" ∉ f.keys)
    (h : text.toList.any isControl = false) :
    readField f (fieldText ("label", escapeField text)) =
      .ok { f with keys := f.keys ++ ["label"], label := some text } := by
  have halg : algorithm "label" = none := by decide
  unfold readField
  rw [splitOnce_fieldText (by decide)]
  simp only [hnew, if_false, halg, if_true, unescapeField_escapeField, h, Bool.false_eq_true]

/-- A stamp is read under its own key. -/
theorem readField_stamp {f : Fields} {n : ℕ} (h : n < stampBound) :
    ("start" ∉ f.keys → readField f (fieldText ("start", toString n)) =
      .ok { f with keys := f.keys ++ ["start"], start := some n }) ∧
    ("end" ∉ f.keys → readField f (fieldText ("end", toString n)) =
      .ok { f with keys := f.keys ++ ["end"], stop := some n }) ∧
    ("seen" ∉ f.keys → readField f (fieldText ("seen", toString n)) =
      .ok { f with keys := f.keys ++ ["seen"], seen := some n }) := by
  have halg : algorithm "start" = none ∧ algorithm "end" = none ∧ algorithm "seen" = none := by
    decide
  refine ⟨?_, ?_, ?_⟩
  · intro hnew
    unfold readField
    rw [splitOnce_fieldText (by decide)]
    simp only [hnew, if_false, halg.1, String.reduceEq, if_true, epoch_toString h]
    rfl
  · intro hnew
    unfold readField
    rw [splitOnce_fieldText (by decide)]
    simp only [hnew, if_false, halg.2.1, String.reduceEq, if_true, epoch_toString h]
    rfl
  · intro hnew
    unfold readField
    rw [splitOnce_fieldText (by decide)]
    simp only [hnew, if_false, halg.2.2, String.reduceEq, if_true, epoch_toString h]
    rfl

/-- The field of the key is read when it is the first of its kind. -/
theorem readField_thumbprint {f : Fields} {thumbprint : String} (hnew : "es256" ∉ f.keys)
    (hf : f.alg = none) (h : isThumbprint thumbprint = true) :
    readField f (fieldText ("es256", thumbprint)) =
      .ok { f with keys := f.keys ++ ["es256"], alg := some (.es256, thumbprint) } := by
  have halg : algorithm "es256" = some .es256 := by decide
  unfold readField
  rw [splitOnce_fieldText (by decide)]
  simp only [hnew, if_false, halg, hf, h, Option.isSome_none, Bool.false_eq_true, Bool.not_true]

/-- What the reader makes of the fields of a well-formed grant. -/
theorem DeviceGrant.WellFormed.foldlM_fields {g : DeviceGrant} (h : g.WellFormed) :
    ∃ f : Fields, (g.fields.map fieldText).foldlM readField {} = .ok f ∧
      f.label = some g.label ∧ f.alg = some (g.alg, g.thumbprint) ∧ f.start = some g.start ∧
      f.stop = some g.stop ∧ f.seen = g.seen := by
  have halg : g.alg = .es256 := by
    cases g.alg with
    | es256 => rfl
  have hlabel := readField_label (f := {}) (by decide) h.label
  have hthumb := readField_thumbprint
    (f := ⟨some g.label, none, none, none, none, ["label"]⟩) (by simp) rfl h.thumbprint
  have hstart := (readField_stamp
    (f := ⟨some g.label, some (.es256, g.thumbprint), none, none, none, ["label", "es256"]⟩)
    h.start).1 (by simp)
  have hstop := (readField_stamp
    (f := ⟨some g.label, some (.es256, g.thumbprint), some g.start, none, none,
      ["label", "es256", "start"]⟩) h.stop).2.1 (by simp)
  have hfour : ([("label", escapeField g.label), ("es256", g.thumbprint),
      ("start", toString g.start), ("end", toString g.stop)].map fieldText).foldlM readField {} =
      .ok ⟨some g.label, some (.es256, g.thumbprint), some g.start, some g.stop, none,
        ["label", "es256", "start", "end"]⟩ := by
    simp only [List.map_cons, List.map_nil, List.foldlM_cons, List.foldlM_nil]
    rw [hlabel, ok_bind]
    simp only [List.nil_append]
    rw [hthumb, ok_bind]
    simp only [List.cons_append, List.nil_append]
    rw [hstart, ok_bind]
    simp only [List.cons_append, List.nil_append]
    rw [hstop, ok_bind]
    rfl
  cases hseen : g.seen with
  | none =>
    refine ⟨⟨some g.label, some (.es256, g.thumbprint), some g.start, some g.stop, none,
      ["label", "es256", "start", "end"]⟩, ?_, rfl, by rw [halg], rfl, rfl, rfl⟩
    rw [DeviceGrant.fields, hseen, halg]
    exact hfour
  | some n =>
    have hread := (readField_stamp (f := ⟨some g.label, some (.es256, g.thumbprint), some g.start,
      some g.stop, none, ["label", "es256", "start", "end"]⟩) (h.seen n hseen)).2.2 (by simp)
    refine ⟨⟨some g.label, some (.es256, g.thumbprint), some g.start, some g.stop, some n,
      ["label", "es256", "start", "end", "seen"]⟩, ?_, rfl, by rw [halg], rfl, rfl, rfl⟩
    rw [DeviceGrant.fields, hseen, halg, List.map_append, List.foldlM_append]
    simp only [Option.toList_some, List.map_cons, List.map_nil, List.foldlM_cons, List.foldlM_nil]
    exact bind_ok_iff.mpr ⟨_, hfour, bind_ok_iff.mpr ⟨_, hread, rfl⟩⟩

/-- A well-formed grant is read back as it was written. -/
theorem decode_encode {g : DeviceGrant} (h : g.WellFormed) :
    DeviceGrant.decode g.encode = .ok g := by
  obtain ⟨f, hf, hlabel, halg, hstart, hstop, hseen⟩ := h.foldlM_fields
  have hstrip : stripPrefix g.encode grantPrefix =
      some (String.ofList (['|'].intercalate (g.fields.map fun p => (fieldText p).toList))) := by
    apply stripPrefix_append
    rw [String.toList_ofList]
    exact g.encode_eq
  have hsplit : split '|' (String.ofList (['|'].intercalate (g.fields.map fun p =>
      (fieldText p).toList))) = g.fields.map fieldText :=
    DeviceGrant.split_payload h.thumbprint String.toList_ofList
  unfold DeviceGrant.decode
  rw [hstrip]
  dsimp only
  rw [hsplit, hf, ok_bind, halg, hstart, hstop, hlabel, hseen]
  rfl

/-- A sanitised label holds no control character. -/
theorem sanitizeLabel_control (raw : String) :
    (sanitizeLabel raw).toList.any isControl = false := by
  have hloop : ∀ cs out : List Char, ∀ escaped : ℕ, out.any isControl = false →
      (sanitizeLabelLoop out escaped cs).any isControl = false := by
    intro cs
    induction cs with
    | nil => exact fun out _ h => h
    | cons c cs ih =>
      intro out escaped h
      rw [sanitizeLabelLoop]
      split
      · exact ih out escaped h
      · rename_i hc
        have hnext : (out ++ [c]).any isControl = false := by simp [h, hc]
        have hcut : ∀ cost, (if maxLabel < escaped + cost then out
            else sanitizeLabelLoop (out ++ [c]) (escaped + cost) cs).any isControl = false := by
          intro cost
          split
          · exact h
          · exact ih _ _ hnext
        exact hcut _
  rw [sanitizeLabel, String.toList_ofList]
  exact hloop raw.toList [] 0 rfl

end Kerbridge.DeviceGrants

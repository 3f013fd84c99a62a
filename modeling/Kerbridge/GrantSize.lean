import Mathlib
import Kerbridge.GrantReading

/-!
# The size and the fields of a stored grant

A sanitised label costs at most its budget once it is escaped, a digest and the
decimal stamps have fixed bounds, and the sum fits the attribute. The fields are
cut at the delimiter in one way only, whatever the label spells.
-/

namespace Kerbridge.DeviceGrants

open UnicodeText StoredIdentity Fallible

/-- What the directory attribute holds of one value, in bytes. -/
def maxValue : ℕ := 255

/-- The octets of a list of characters. -/
def octets (cs : List Char) : ℕ := (cs.map Char.utf8Size).sum

/-- The octets of two parts are added. -/
theorem octets_append (a b : List Char) : octets (a ++ b) = octets a + octets b := by
  simp [octets]

/-- A text is as long as its characters. -/
theorem utf8ByteSize_ofList (cs : List Char) : (String.ofList cs).utf8ByteSize = octets cs := by
  induction cs with
  | nil => rfl
  | cons c cs ih =>
    have hone : (String.singleton c).utf8ByteSize = c.utf8Size := by simp
    rw [String.ofList_cons, String.utf8ByteSize_append, hone, ih, octets, octets, List.map_cons,
      List.sum_cons]

/-- What one character of a label costs once it is escaped. -/
def labelCost (c : Char) : ℕ := if c = '%' ∨ c = '|' then 3 else c.utf8Size

/-- The cost of a character is the octets of its escape. -/
theorem octets_escapeChar (c : Char) : octets (escapeChar c) = labelCost c := by
  unfold escapeChar labelCost
  by_cases hp : c = '%'
  · rw [if_pos hp, if_pos (Or.inl hp)]
    decide
  · by_cases hd : c = '|'
    · rw [if_neg hp, if_pos hd, if_pos (Or.inr hd)]
      decide
    · rw [if_neg hp, if_neg hd, if_neg (by simp [hp, hd])]
      simp [octets]

/-- The copying loop stays within its budget, counted over what it has copied. -/
theorem sanitizeLabelLoop_octets {cs out : List Char} {escaped : ℕ}
    (hout : octets (out.flatMap escapeChar) = escaped) (h : escaped ≤ maxLabel) :
    octets ((sanitizeLabelLoop out escaped cs).flatMap escapeChar) ≤ maxLabel := by
  induction cs generalizing out escaped with
  | nil =>
    rw [sanitizeLabelLoop, hout]
    exact h
  | cons c cs ih =>
    rw [sanitizeLabelLoop]
    split
    · exact ih hout h
    · change octets ((if maxLabel < escaped + labelCost c then out else
        sanitizeLabelLoop (out ++ [c]) (escaped + labelCost c) cs).flatMap escapeChar) ≤ maxLabel
      split
      · omega
      · rename_i hfit
        have hnext : octets ((out ++ [c]).flatMap escapeChar) = escaped + labelCost c := by
          rw [List.flatMap_append, octets_append, hout, List.flatMap_singleton, octets_escapeChar]
        exact ih hnext (by omega)

/-- A sanitised label fits its budget once it is escaped. -/
theorem escapeField_sanitizeLabel (raw : String) :
    (escapeField (sanitizeLabel raw)).utf8ByteSize ≤ maxLabel := by
  rw [escapeField, sanitizeLabel, String.toList_ofList, utf8ByteSize_ofList]
  exact sanitizeLabelLoop_octets rfl (by decide)

/-- A stamp takes at most twenty digits. -/
theorem utf8ByteSize_stamp {n : ℕ} (h : n < stampBound) : (toString n).utf8ByteSize ≤ 20 := by
  have hlen : (Nat.toDigits 10 n).length ≤ 20 := by
    rw [Nat.length_toDigits_le_iff (by decide) (by decide)]
    unfold stampBound at h
    omega
  have hone : ∀ c ∈ Nat.toDigits 10 n, c.utf8Size = 1 := by
    intro c hc
    have hdigit := Nat.isDigit_of_mem_toDigits (by decide) (by decide) hc
    have hle : c.val ≤ 127 := by
      simp only [Char.isDigit, Bool.and_eq_true, decide_eq_true_eq] at hdigit
      exact UInt32.le_trans hdigit.2 (by decide)
    exact if_pos hle
  have hsize : octets (Nat.toDigits 10 n) = (Nat.toDigits 10 n).length := by
    rw [octets, List.map_congr_left hone]
    simp
  have htext : toString n = String.ofList (Nat.toDigits 10 n) := by
    rw [Nat.toString_eq_repr, Nat.repr_eq_ofList_toDigits]
  rw [htext, utf8ByteSize_ofList, hsize]
  exact hlen

/-- A grant fits the attribute when its escaped label fits the label's budget. -/
theorem DeviceGrant.encode_size {g : DeviceGrant}
    (hlabel : (escapeField g.label).utf8ByteSize ≤ maxLabel)
    (hthumb : isThumbprint g.thumbprint = true) (hstart : g.start < stampBound)
    (hstop : g.stop < stampBound) (hseen : ∀ n ∈ g.seen, n < stampBound) :
    g.encode.utf8ByteSize ≤ maxValue := by
  have hdigest : g.thumbprint.utf8ByteSize = 43 := by
    rw [isThumbprint, Bool.and_eq_true, decide_eq_true_eq] at hthumb
    exact hthumb.1
  have hname : g.alg.name.utf8ByteSize = 5 := by
    cases g.alg with
    | es256 => decide
  have h1 := utf8ByteSize_stamp hstart
  have h2 := utf8ByteSize_stamp hstop
  have hparts : grantPrefix.utf8ByteSize = 7 ∧ "label=".utf8ByteSize = 6 ∧
      "|".utf8ByteSize = 1 ∧ "=".utf8ByteSize = 1 ∧ "|start=".utf8ByteSize = 7 ∧
      "|end=".utf8ByteSize = 5 ∧ "|seen=".utf8ByteSize = 6 := by decide
  obtain ⟨p1, p2, p3, p4, p5, p6, p7⟩ := hparts
  unfold maxLabel at hlabel
  unfold maxValue DeviceGrant.encode
  cases hs : g.seen with
  | none =>
    simp only [String.utf8ByteSize_append, String.utf8ByteSize_empty, p1, p2, p3, p4, p5, p6,
      hdigest, hname]
    omega
  | some n =>
    have h3 := utf8ByteSize_stamp (hseen n (by simp [hs]))
    simp only [String.utf8ByteSize_append, p1, p2, p3, p4, p5, p6, p7, hdigest, hname]
    omega

/-- The fields of a stored grant that its label is not one of. -/
def DeviceGrant.otherFields (g : DeviceGrant) : List String :=
  [g.alg.name ++ "=" ++ g.thumbprint, "start=" ++ toString g.start, "end=" ++ toString g.stop] ++
    g.seen.toList.map fun n => "seen=" ++ toString n

/-- A stored grant is cut into its tag, its label and its other fields. -/
theorem DeviceGrant.split_encode {g : DeviceGrant} (h : isThumbprint g.thumbprint = true) :
    split '|' g.encode = "kbkey1" :: ("label=" ++ escapeField g.label) :: g.otherFields := by
  have hfree : ∀ l ∈ "kbkey1".toList :: g.fields.map fun p => (fieldText p).toList, '|' ∉ l := by
    intro l hl
    rcases List.mem_cons.mp hl with rfl | hl
    · decide
    · obtain ⟨p, hp, rfl⟩ := List.mem_map.mp hl
      exact DeviceGrant.delimiter_notMem h p hp
  have hjoin : g.encode.toList = ['|'].intercalate
      ("kbkey1".toList :: g.fields.map fun p => (fieldText p).toList) := by
    rw [g.encode_eq]
    cases hf : g.fields with
    | nil => simp [DeviceGrant.fields] at hf
    | cons p ps =>
      have htag : grantPrefix.toList = "kbkey1".toList ++ ['|'] := by decide
      rw [htag, List.map_cons, List.append_assoc]
      rfl
  have hcut := List.splitOn_intercalate '|' hfree (by simp)
  unfold split
  rw [hjoin, hcut, List.map_cons, List.map_map]
  have htexts : (g.fields.map fun p => fieldText p) =
      ("label=" ++ escapeField g.label) :: g.otherFields := by
    cases g.seen with
    | none => simp [DeviceGrant.fields, DeviceGrant.otherFields, fieldText]
    | some n => simp [DeviceGrant.fields, DeviceGrant.otherFields, fieldText]
  rw [← htexts, String.ofList_toList]
  refine congrArg _ (List.map_congr_left ?_)
  intro p _
  simp [String.ofList_toList]

/-- A label with a control character is refused, and no field is read past it. -/
theorem DeviceGrant.decode_control {g g' : DeviceGrant} (h : isThumbprint g.thumbprint = true)
    (hlabel : g.label.toList.any isControl = true) : DeviceGrant.decode g.encode ≠ .ok g' := by
  have hstrip : stripPrefix g.encode grantPrefix =
      some (String.ofList (['|'].intercalate (g.fields.map fun p => (fieldText p).toList))) := by
    apply stripPrefix_append
    rw [String.toList_ofList]
    exact g.encode_eq
  have hsplit : split '|' (String.ofList (['|'].intercalate (g.fields.map fun p =>
      (fieldText p).toList))) = g.fields.map fieldText :=
    DeviceGrant.split_payload h String.toList_ofList
  have halg : algorithm "label" = none := by decide
  have hfirst : readField {} (fieldText ("label", escapeField g.label)) =
      .error (.badValue "label") := by
    unfold readField
    rw [splitOnce_fieldText (by decide)]
    simp only [List.not_mem_nil, if_false, halg, if_true, unescapeField_escapeField, hlabel]
  intro hok
  unfold DeviceGrant.decode at hok
  rw [hstrip] at hok
  dsimp only at hok
  rw [hsplit] at hok
  obtain ⟨f, hf, _⟩ := bind_ok_iff.mp hok
  rw [DeviceGrant.fields, List.cons_append, List.map_cons, List.foldlM_cons, hfirst] at hf
  cases hf

/-- A grant built with a sanitised label fits the attribute and is read back exactly.
Whatever the label is, it changes neither the tag, nor another field, nor their number,
and a value that is read back has the fields it was written with. -/
theorem sanitized_grant (raw : String) (alg : Algorithm) {thumbprint : String} {start stop : ℕ}
    {seen : Option ℕ} (hthumb : isThumbprint thumbprint = true) (hstart : start < stampBound)
    (hstop : stop < stampBound) (hseen : ∀ n ∈ seen, n < stampBound) :
    let grant : String → DeviceGrant := fun label => ⟨label, alg, thumbprint, start, stop, seen⟩
    (grant (sanitizeLabel raw)).encode.utf8ByteSize ≤ maxValue ∧
    DeviceGrant.decode (grant (sanitizeLabel raw)).encode = .ok (grant (sanitizeLabel raw)) ∧
    ∀ label : String,
      split '|' (grant label).encode = "kbkey1" :: ("label=" ++ escapeField label) ::
        ([alg.name ++ "=" ++ thumbprint, "start=" ++ toString start, "end=" ++ toString stop] ++
          seen.toList.map fun n => "seen=" ++ toString n) ∧
      ∀ g, DeviceGrant.decode (grant label).encode = .ok g → g = grant label := by
  intro grant
  refine ⟨?_, ?_, ?_⟩
  · exact DeviceGrant.encode_size (escapeField_sanitizeLabel raw) hthumb hstart hstop hseen
  · exact decode_encode ⟨sanitizeLabel_control raw, hthumb, hstart, hstop, hseen⟩
  · intro label
    refine ⟨DeviceGrant.split_encode hthumb, ?_⟩
    intro g hg
    cases hc : label.toList.any isControl with
    | true => exact absurd hg (DeviceGrant.decode_control hthumb hc)
    | false =>
      have hback : DeviceGrant.decode (grant label).encode = .ok (grant label) :=
        decode_encode ⟨hc, hthumb, hstart, hstop, hseen⟩
      exact (Except.ok.inj (hback.symm.trans hg)).symm

/-- The rule at a label that spells two fields and a stamp of every kind. -/
theorem sanitized_grant_forged :
    let grant : DeviceGrant := ⟨sanitizeLabel "a|end=9|b", .es256,
      "AAAAAAAAAAAAAAAAAAAAAAAAAAAAAAAAAAAAAAAAAAA", 1, 2, some 3⟩
    grant.encode.utf8ByteSize ≤ maxValue ∧ DeviceGrant.decode grant.encode = .ok grant :=
  let h := @sanitized_grant "a|end=9|b" .es256 "AAAAAAAAAAAAAAAAAAAAAAAAAAAAAAAAAAAAAAAAAAA" 1 2
    (some 3) (by decide) (by decide) (by decide) (by decide)
  ⟨h.1, h.2.1⟩

end Kerbridge.DeviceGrants

import Kerbridge.GrantReading
import Kerbridge.StoredIdentity

/-!
# The walk over a group's members

The members of a group are read from its entry, and in ranges where the server answers
with those. Every chunk must start further than the one before, so the walk ends whatever
the server answers.
-/

namespace Kerbridge.SyncDirectory

open UnicodeText StoredIdentity DeviceGrants

/-- The attributes of an entry, in the order they are gone through. -/
abbrev Attrs := List (String × List String)

/-- The values of an attribute, if it is there. -/
def Attrs.get (attrs : Attrs) (name : String) : Option (List String) := List.lookup name attrs

/-- The bounds a key states for the members it holds. -/
def rangeBounds (key : String) : Option String :=
  stripPrefix (toAsciiLowercase key) "member;range="

/-- What 32 bits hold. -/
def rangeLimit : ℕ := 0x100000000

/-- The values under a ranged key, and where the next chunk starts if this was not the
last of them. -/
def rangeChunk : Attrs → Except String (Option (List String × Option ℕ))
  | [] => .ok none
  | (key, values) :: attrs =>
    match rangeBounds key with
    | none => rangeChunk attrs
    | some bounds =>
      let hi := ((splitOnce '-' bounds).map Prod.snd).getD ""
      if hi = "*" then .ok (some (values, none))
      else
        match parseUnsigned rangeLimit hi with
        | none => .error ("upper bound of " ++ key)
        | some n => .ok (some (values, some ((n + 1) % rangeLimit)))

/-- The next chunk starts below the limit. -/
theorem rangeChunk_lt {attrs : Attrs} {values : List String} {next : ℕ}
    (h : rangeChunk attrs = .ok (some (values, some next))) : next < rangeLimit := by
  induction attrs with
  | nil => cases h
  | cons a attrs ih =>
    obtain ⟨key, found⟩ := a
    unfold rangeChunk at h
    cases hbounds : rangeBounds key with
    | none =>
      rw [hbounds] at h
      exact ih h
    | some bounds =>
      rw [hbounds] at h
      dsimp only at h
      split at h
      · cases h
      · split at h
        · cases h
        · cases h
          exact Nat.mod_lt _ (by decide)

/-- The attribute that is asked for, for the members from a position on. -/
def requestFrom (lo : ℕ) : String := "member;range=" ++ toString lo ++ "-*"

/-- The rest of the members, from a position on. -/
def membersFrom (search : String → Except String (List Attrs)) (dn : String)
    (members : List String) (lo : ℕ) : Except String (List String) :=
  match search (requestFrom lo) with
  | .error why => .error ("reading " ++ requestFrom lo ++ " of " ++ dn ++ ": " ++ why)
  | .ok [] => .error (dn ++ " vanished while reading " ++ requestFrom lo)
  | .ok (chunk :: _) =>
    match _hchunk : rangeChunk chunk with
    | .error why => .error why
    | .ok (some (values, some next)) =>
      if _hle : next ≤ lo then
        .error (dn ++ " answered range " ++ toString lo ++ "-* with a chunk ending at " ++
          toString next)
      else membersFrom search dn (members ++ values) next
    | .ok (some (values, none)) => .ok (members ++ values)
    | .ok none => .ok (members ++ (chunk.get "member").getD [])
  termination_by rangeLimit - lo
  decreasing_by
    have hlt := rangeChunk_lt _hchunk
    omega

/-- The members of a group, of the entry the first search gave. -/
def membersOf (search : String → Except String (List Attrs)) (dn : String) (attrs : Attrs) :
    Except String (List String) :=
  match attrs.get "member" with
  | some members => .ok members
  | none =>
    match rangeChunk attrs with
    | .error why => .error why
    | .ok none => .ok []
    | .ok (some (members, none)) => .ok members
    | .ok (some (members, some next)) => membersFrom search dn members next

/-- The attributes of an entry that hold a range of the members. -/
def Attrs.ranges (attrs : Attrs) : Attrs := attrs.filter fun a => (rangeBounds a.1).isSome

/-- A key in some letter case. -/
def Spells (key text : String) : Prop := toAsciiLowercase key = text

/-- What a server may answer about the members from a position on. -/
inductive Answers (members : List String) (lo : ℕ) (attrs : Attrs) : Prop where
  /-- All of them, under the plain key. -/
  | whole (hplain : attrs.get "member" = some (members.drop lo)) (hranges : attrs.ranges = [])
  /-- There are none, and no key either. -/
  | absent (hplain : attrs.get "member" = none) (hranges : attrs.ranges = [])
      (hnone : members.drop lo = [])
  /-- The last chunk; the plain key may be there, without a value. -/
  | last (key : String) (hkey : Spells key (requestFrom lo))
      (hplain : ∀ plain, attrs.get "member" = some plain → plain = [])
      (hranges : attrs.ranges = [(key, members.drop lo)]) (hsome : members.drop lo ≠ [])
  /-- Some of them, at least one; the plain key may be there, without a value. -/
  | chunk (key : String) (count : ℕ)
      (hkey : Spells key ("member;range=" ++ toString lo ++ "-" ++ toString (lo + count)))
      (hplain : ∀ plain, attrs.get "member" = some plain → plain = [])
      (hranges : attrs.ranges = [(key, (members.drop lo).take (count + 1))])
      (hsome : lo + count < members.length)

/-- A server that answers about the members of a group, or refuses to. -/
def Serves (members : List String) (search : String → Except String (List Attrs)) : Prop :=
  ∀ lo chunk rest, search (requestFrom lo) = .ok (chunk :: rest) → Answers members lo chunk

section Chunks

variable {members : List String} {lo : ℕ} {attrs : Attrs}

/-- The decimal text of a number holds no dash. -/
theorem dash_notMem_decimal (n : ℕ) : '-' ∉ (toString n).toList := by
  intro hdash
  rw [Nat.toString_eq_repr, Nat.toList_repr] at hdash
  have hdigit := Nat.isDigit_of_mem_toDigits (by decide) (by decide) hdash
  exact absurd hdigit (by decide)

/-- The decimal text of a number is not the mark of the last chunk. -/
theorem decimal_ne_star (n : ℕ) : toString n ≠ "*" := by
  intro hstar
  have hmem : '*' ∈ (toString n).toList := by
    rw [hstar]
    decide
  rw [Nat.toString_eq_repr, Nat.toList_repr] at hmem
  have hdigit := Nat.isDigit_of_mem_toDigits (by decide) (by decide) hmem
  exact absurd hdigit (by decide)

/-- A number that was read is the one read under any larger bound. -/
theorem parseUnsigned_mono {bound larger n : ℕ} {text : String}
    (h : parseUnsigned bound text = some n) (hle : bound ≤ larger) :
    parseUnsigned larger text = some n := by
  unfold parseUnsigned at h ⊢
  extract_lets at h ⊢
  split at h
  · cases h
  · rename_i hdigits
    rw [if_neg hdigits]
    split at h
    · rename_i hlt
      rw [if_pos (by omega)]
      exact h
    · cases h

/-- A decimal text is read as its number, and not at all when that is too large. -/
theorem parse_decimal (n : ℕ) :
    parseUnsigned rangeLimit (toString n) = if n < rangeLimit then some n else none := by
  split
  · rename_i hlt
    exact parseUnsigned_toString hlt
  · rename_i hge
    cases hread : parseUnsigned rangeLimit (toString n) with
    | none => rfl
    | some m =>
      have hm := parseUnsigned_lt hread
      have hlarge := parseUnsigned_mono hread (Nat.le_max_left rangeLimit (n + 1))
      have hfits : n < max rangeLimit (n + 1) := by omega
      rw [parseUnsigned_toString hfits] at hlarge
      cases hlarge
      exact absurd hm hge

/-- The bounds of a key that spells a range, and the upper one of them. -/
theorem bounds_of_spells {key hi : String}
    (hkey : Spells key ("member;range=" ++ toString lo ++ "-" ++ hi)) :
    rangeBounds key = some (toString lo ++ "-" ++ hi) ∧
      ((splitOnce '-' (toString lo ++ "-" ++ hi)).map Prod.snd).getD "" = hi := by
  have hdash : "-" = String.ofList ['-'] := rfl
  refine ⟨?_, ?_⟩
  · unfold rangeBounds
    refine stripPrefix_append ?_
    rw [hkey]
    simp [String.toList_append]
  · rw [hdash, splitOnce_field (dash_notMem_decimal lo) hi]
    rfl

/-- Without a ranged key there is no chunk. -/
theorem rangeChunk_none (h : attrs.ranges = []) : rangeChunk attrs = .ok none := by
  induction attrs with
  | nil => rfl
  | cons a attrs ih =>
    obtain ⟨key, values⟩ := a
    unfold Attrs.ranges at h
    rw [List.filter_cons] at h
    split at h
    · cases h
    · rename_i hbounds
      unfold rangeChunk
      rw [Option.not_isSome_iff_eq_none.mp hbounds]
      exact ih h

/-- What the first ranged key says, whatever stands before and behind it. -/
theorem rangeChunk_first {key : String} {values : List String} {rest : Attrs}
    (h : attrs.ranges = (key, values) :: rest) : rangeChunk attrs = rangeChunk [(key, values)] := by
  induction attrs with
  | nil => cases h
  | cons a attrs ih =>
    obtain ⟨key', values'⟩ := a
    unfold Attrs.ranges at h
    rw [List.filter_cons] at h
    split at h
    · rename_i hbounds
      obtain ⟨hfirst, _⟩ := List.cons_eq_cons.mp h
      cases hfirst
      obtain ⟨bounds, hbounds⟩ := Option.isSome_iff_exists.mp hbounds
      unfold rangeChunk
      rw [hbounds]
    · rename_i hbounds
      rw [rangeChunk, Option.not_isSome_iff_eq_none.mp hbounds]
      exact ih h

/-- The last chunk is read as such. -/
theorem rangeChunk_last {key : String} {values : List String} (hkey : Spells key (requestFrom lo))
    (h : attrs.ranges = [(key, values)]) : rangeChunk attrs = .ok (some (values, none)) := by
  have hspells : Spells key ("member;range=" ++ toString lo ++ "-" ++ "*") := by
    have hmark : "-*" = "-" ++ "*" := rfl
    unfold requestFrom at hkey
    rw [hmark, ← String.append_assoc] at hkey
    exact hkey
  obtain ⟨hbounds, hupper⟩ := bounds_of_spells hspells
  rw [rangeChunk_first h, rangeChunk, hbounds]
  dsimp only
  rw [hupper, if_pos rfl]

/-- A chunk that is not the last says where the next one starts, unless that is too far. -/
theorem rangeChunk_chunk {key : String} {values : List String} {hi : ℕ}
    (hkey : Spells key ("member;range=" ++ toString lo ++ "-" ++ toString hi))
    (h : attrs.ranges = [(key, values)]) :
    rangeChunk attrs =
      if hi < rangeLimit then .ok (some (values, some ((hi + 1) % rangeLimit)))
      else .error ("upper bound of " ++ key) := by
  obtain ⟨hbounds, hupper⟩ := bounds_of_spells hkey
  rw [rangeChunk_first h, rangeChunk, hbounds]
  dsimp only
  rw [hupper, if_neg (decimal_ne_star hi), parse_decimal]
  by_cases hlt : hi < rangeLimit
  · rw [if_pos hlt, if_pos hlt]
  · rw [if_neg hlt, if_neg hlt]

end Chunks

section Walk

variable {members : List String} {search : String → Except String (List Attrs)} {dn : String}

/-- One step of the walk, by what the answer to it holds. -/
theorem membersFrom_step {found : List String} {lo : ℕ} {chunk : Attrs} {rest : List Attrs}
    (hsearch : search (requestFrom lo) = .ok (chunk :: rest)) :
    (∀ why, rangeChunk chunk = .error why → membersFrom search dn found lo = .error why) ∧
    (rangeChunk chunk = .ok none →
      membersFrom search dn found lo = .ok (found ++ (chunk.get "member").getD [])) ∧
    (∀ values, rangeChunk chunk = .ok (some (values, none)) →
      membersFrom search dn found lo = .ok (found ++ values)) ∧
    (∀ values next, rangeChunk chunk = .ok (some (values, some next)) →
      (next ≤ lo → ∃ why, membersFrom search dn found lo = .error why) ∧
      (lo < next →
        membersFrom search dn found lo = membersFrom search dn (found ++ values) next)) := by
  refine ⟨?_, ?_, ?_, ?_⟩
  · intro why hchunk
    rw [membersFrom, hsearch]
    dsimp only
    split
    all_goals rename_i hcase
    all_goals rw [hchunk] at hcase
    all_goals cases hcase
    rfl
  · intro hchunk
    rw [membersFrom, hsearch]
    dsimp only
    split
    all_goals rename_i hcase
    all_goals rw [hchunk] at hcase
    all_goals cases hcase
  · intro values hchunk
    rw [membersFrom, hsearch]
    dsimp only
    split
    all_goals rename_i hcase
    all_goals rw [hchunk] at hcase
    all_goals cases hcase
    rfl
  · intro values next hchunk
    rw [membersFrom, hsearch]
    dsimp only
    split
    all_goals rename_i hcase
    all_goals rw [hchunk] at hcase
    all_goals cases hcase
    refine ⟨?_, ?_⟩
    · intro hle
      rw [dif_pos hle]
      exact ⟨_, rfl⟩
    · intro hlt
      rw [dif_neg (by omega)]

/-- The walk ends with all of the members, when those before its start are what it has. -/
theorem membersFrom_whole (hserves : Serves members search) {found read : List String} {lo : ℕ}
    (hfound : found = members.take lo) (h : membersFrom search dn found lo = .ok read) :
    read = members := by
  induction hleft : rangeLimit - lo using Nat.strongRecOn generalizing found lo with
  | ind left ih =>
    cases hsearch : search (requestFrom lo) with
    | error why =>
      rw [membersFrom, hsearch] at h
      cases h
    | ok entries =>
      cases entries with
      | nil =>
        rw [membersFrom, hsearch] at h
        cases h
      | cons chunk rest =>
        obtain ⟨hfails, hplainly, hlast, hmore⟩ := @membersFrom_step search dn found lo chunk rest
          hsearch
        cases hserves lo chunk rest hsearch with
        | whole hplain hranges =>
          rw [hplainly (rangeChunk_none hranges), hplain] at h
          cases h
          rw [hfound]
          exact List.take_append_drop lo members
        | absent hplain hranges hnone =>
          rw [hplainly (rangeChunk_none hranges), hplain] at h
          cases h
          have hwhole := List.take_append_drop lo members
          rw [hnone] at hwhole
          rw [hfound]
          exact hwhole
        | last key hkey hplain hranges hsome =>
          rw [hlast _ (rangeChunk_last hkey hranges)] at h
          cases h
          rw [hfound]
          exact List.take_append_drop lo members
        | chunk key count hkey hplain hranges hsome =>
          have hread := rangeChunk_chunk hkey hranges
          by_cases hfits : lo + count < rangeLimit
          · rw [if_pos hfits] at hread
            obtain ⟨hstuck, hgoes⟩ := hmore _ _ hread
            rcases Nat.lt_or_ge (lo + count + 1) rangeLimit with hnext | hnext
            · rw [Nat.mod_eq_of_lt hnext] at hgoes
              rw [hgoes (by omega)] at h
              refine ih (rangeLimit - (lo + count + 1)) (by omega) ?_ h rfl
              rw [hfound, Nat.add_assoc]
              exact List.take_add.symm
            · have hwraps : (lo + count + 1) % rangeLimit = 0 := by
                have heq : lo + count + 1 = rangeLimit := by omega
                rw [heq, Nat.mod_self]
              rw [hwraps] at hstuck
              obtain ⟨why, hwhy⟩ := hstuck (Nat.zero_le lo)
              rw [hwhy] at h
              cases h
          · rw [if_neg hfits] at hread
            rw [hfails _ hread] at h
            cases h

/-- What a request asks for tells where it starts. -/
theorem requestFrom_inj {lo lo' : ℕ} (h : requestFrom lo = requestFrom lo') : lo = lo' := by
  unfold requestFrom at h
  have hchars := congrArg String.toList h
  simp only [String.toList_append, List.append_assoc] at hchars
  have htext : (toString lo).toList = (toString lo').toList :=
    List.append_cancel_right (List.append_cancel_left hchars)
  have hread := @parseUnsigned_toString (max lo lo' + 1) lo (by omega)
  rw [String.toList_inj.mp htext, parseUnsigned_toString (by omega)] at hread
  cases hread
  rfl

/-- The key of a first chunk tells where it ends. -/
theorem chunkKey_inj {hi : ℕ} :
    "member;range=" ++ toString 0 ++ "-" ++ toString hi = "member;range=0-4294967295" ↔
      hi = 4294967295 := by
  constructor
  · intro h
    have hlast : "member;range=0-4294967295" =
        "member;range=" ++ toString 0 ++ "-" ++ toString 4294967295 := by decide
    rw [hlast] at h
    have hchars := congrArg String.toList h
    simp only [String.toList_append, List.append_assoc] at hchars
    have htext := List.append_cancel_left (List.append_cancel_left (List.append_cancel_left hchars))
    have hread := @parseUnsigned_toString (hi + 4294967296) hi (by omega)
    rw [String.toList_inj.mp htext, parseUnsigned_toString (by omega)] at hread
    cases hread
    rfl
  · intro h
    rw [h]
    decide

/-- The first answer leaves the plain key out where it holds a range, and holds no chunk
that ends at the largest bound. -/
def Attrs.Walkable (attrs : Attrs) : Prop :=
  (attrs.ranges ≠ [] → attrs.get "member" = none) ∧
    ∀ a ∈ attrs.ranges, ¬Spells a.1 "member;range=0-4294967295"

/-- **The membership read** gives all of the members or fails, whatever the server answers
later on, exactly when its first answer is one to walk on from. -/
theorem membersOf_whole_iff {attrs : Attrs} (hfirst : Answers members 0 attrs) :
    (∀ search, Serves members search →
      ∀ read, membersOf search dn attrs = .ok read → read = members) ↔ attrs.Walkable := by
  have hdeaf : Serves members fun _ => .error "" := by
    intro lo chunk rest h
    cases h
  unfold Attrs.Walkable
  cases hfirst with
  | whole hplain hranges =>
    refine iff_of_true ?_ ⟨fun h => absurd hranges h, ?_⟩
    · intro search _ read hread
      unfold membersOf at hread
      rw [hplain] at hread
      cases hread
      exact List.drop_zero
    · rw [hranges]
      exact fun a ha => absurd ha List.not_mem_nil
  | absent hplain hranges hnone =>
    refine iff_of_true ?_ ⟨fun h => absurd hranges h, ?_⟩
    · intro search _ read hread
      unfold membersOf at hread
      rw [hplain, rangeChunk_none hranges] at hread
      cases hread
      exact hnone.symm.trans List.drop_zero
    · rw [hranges]
      exact fun a ha => absurd ha List.not_mem_nil
  | last key hkey hplain hranges hsome =>
    have hopen : ¬Spells key "member;range=0-4294967295" := by
      intro h
      unfold Spells at hkey h
      rw [h] at hkey
      exact absurd hkey (by decide)
    cases hget : attrs.get "member" with
    | some plain =>
      refine iff_of_false ?_ (fun h => ?_)
      · intro hwhole
        have hread := hwhole _ hdeaf plain (by unfold membersOf; rw [hget])
        rw [hplain plain hget] at hread
        rw [← hread] at hsome
        exact hsome List.drop_nil
      · have hleft := h.1 (by rw [hranges]; exact List.cons_ne_nil _ _)
        cases hleft
    | none =>
      refine iff_of_true ?_ ⟨fun _ => rfl, ?_⟩
      · intro search _ read hread
        unfold membersOf at hread
        rw [hget, rangeChunk_last hkey hranges] at hread
        cases hread
        exact List.drop_zero
      · intro a ha
        rw [hranges, List.mem_singleton] at ha
        rw [ha]
        exact hopen
  | chunk key count hkey hplain hranges hsome =>
    have hhead : members.drop 0 = members := List.drop_zero
    rw [hhead] at hranges
    have hfirstKey : Spells key "member;range=0-4294967295" ↔ count = 4294967295 := by
      rw [Nat.zero_add] at hkey
      unfold Spells at hkey ⊢
      rw [hkey]
      exact chunkKey_inj
    cases hget : attrs.get "member" with
    | some plain =>
      refine iff_of_false ?_ (fun h => ?_)
      · intro hwhole
        have hread := hwhole _ hdeaf plain (by unfold membersOf; rw [hget])
        rw [hplain plain hget] at hread
        rw [← hread] at hsome
        exact absurd hsome (by simp)
      · have hleft := h.1 (by rw [hranges]; exact List.cons_ne_nil _ _)
        cases hleft
    | none =>
      have hread := rangeChunk_chunk hkey hranges
      rw [Nat.zero_add] at hread
      have hopen : (∀ a ∈ attrs.ranges, ¬Spells a.1 "member;range=0-4294967295") ↔
          count ≠ 4294967295 := by
        rw [hranges]
        simp only [List.mem_singleton, forall_eq]
        exact not_congr hfirstKey
      rw [hopen]
      refine Iff.trans ?_ (and_iff_right fun _ => rfl).symm
      by_cases hlast : count = 4294967295
      · -- the next chunk is asked for from the start again
        refine iff_of_false ?_ (fun h => h hlast)
        intro hwhole
        subst hlast
        have hwholly : Attrs.ranges [("member", members)] = [] := by
          have hname : rangeBounds "member" = none := by decide
          unfold Attrs.ranges
          rw [List.filter_cons_of_neg (by rw [hname]; decide)]
          rfl
        have hagain : Serves members fun text =>
            if text = requestFrom 0 then .ok [[("member", members)]] else .error "" := by
          intro lo chunk rest h
          dsimp only at h
          split at h
          · rename_i hsame
            cases h
            rw [requestFrom_inj hsame]
            exact .whole rfl hwholly
          · cases h
        have htwice := hwhole _ hagain (members.take 4294967296 ++ members) ?_
        · have hlength := congrArg List.length htwice
          rw [List.length_append, List.length_take] at hlength
          omega
        · unfold membersOf
          rw [hget, hread]
          obtain ⟨_, hplainly, _, _⟩ := @membersFrom_step (fun text =>
            if text = requestFrom 0 then .ok [[("member", members)]] else .error "") dn
            (members.take 4294967296) 0 [("member", members)] [] (if_pos rfl)
          exact hplainly (rangeChunk_none hwholly)
      · refine iff_of_true ?_ hlast
        intro search hserves read h
        unfold membersOf at h
        rw [hget, hread] at h
        by_cases hfits : count < rangeLimit
        · have hnext : count + 1 < rangeLimit := by
            unfold rangeLimit at hfits ⊢
            omega
          rw [if_pos hfits, Nat.mod_eq_of_lt hnext] at h
          exact membersFrom_whole hserves rfl h
        · rw [if_neg hfits] at h
          cases h

end Walk

/-- The first of two members, in a chunk of its own. -/
def firstOfTwo : Attrs := [("objectClass", ["group"]), ("member;range=0-0", ["CN=a"])]

/-- A group of two is read in whole from a first chunk that holds one of them. -/
theorem two_read_whole : (∀ search, Serves ["CN=a", "CN=b"] search →
    ∀ read, membersOf search "CN=g" firstOfTwo = .ok read → read = ["CN=a", "CN=b"]) ↔
      firstOfTwo.Walkable :=
  membersOf_whole_iff (.chunk "member;range=0-0" 0 (by unfold Spells; decide) (by
    intro plain hplain
    cases hplain) (by decide) (by decide))

/-- The members of a group, beside the plain key without a value. -/
def besideEmpty : Attrs := [("member", []), ("member;range=0-*", ["CN=a"])]

/-- A group whose members stand beside the empty plain key reads as empty. -/
theorem beside_empty_lost : Answers ["CN=a"] 0 besideEmpty ∧
    (∀ search, membersOf search "CN=g" besideEmpty = .ok []) ∧
    ¬∀ search, Serves ["CN=a"] search →
      ∀ read, membersOf search "CN=g" besideEmpty = .ok read → read = ["CN=a"] := by
  have hempty : ∀ search, membersOf search "CN=g" besideEmpty = .ok [] := fun search => rfl
  refine ⟨.last "member;range=0-*" (by unfold Spells; decide) ?_ (by decide) (by decide),
    hempty, ?_⟩
  · intro plain hplain
    cases hplain
    rfl
  · intro hwhole
    have hread := hwhole (fun _ => .error "") (fun _ _ _ h => nomatch h) [] (hempty _)
    cases hread

end Kerbridge.SyncDirectory

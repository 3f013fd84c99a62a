import Kerbridge.ConfigMigrations
import Mathlib.Data.List.Nodup

/-!
# A replay, turn by turn

A replay is a run of turns, one entry over one file each. A turn whose entry matches takes a
value out of its file, unless it renames the value itself, and puts one at one path of some
files. What it leaves elsewhere is what was there.
-/

namespace Kerbridge.ConfigMigrations

open UnicodeText Toml

section Acts

/-- Where an entry puts a value. -/
def Migration.putAt : Migration → List String
  | .renamed _ _ toKey => putSteps toKey
  | .moved _ _ _ toKey => putSteps toKey
  | .spreadToSources _ _ toKey => putSteps toKey
  | .retired _ _ _ => []
  | .valueRenamed _ key _ _ => putSteps key

/-- The value an entry puts, from the one it matched. -/
def Migration.puts : Migration → Value → Value
  | .valueRenamed _ _ _ toValue, _ => .string toValue
  | _, v => v

/-- The files an entry puts a value into. -/
def Migration.targets (sources : List String) (file : String) : Migration → List String
  | .renamed _ _ _ => [file]
  | .moved _ _ toFile _ => [toFile]
  | .spreadToSources _ _ _ => sources
  | .retired _ _ _ => []
  | .valueRenamed _ _ _ _ => [file]

/-- What an entry leaves of the document it reads, before it puts a value. -/
def Migration.rest : Migration → Table → Table
  | .valueRenamed _ _ _ _, t => t
  | m, t => ((takePath (steps m.key) t).map Prod.snd).getD t

/-- The file an entry moves to is there. -/
def Migration.reaches (files : List String) : Migration → Prop
  | .moved _ _ toFile _ => toFile ∈ files
  | _ => True

instance (files : List String) (m : Migration) : Decidable (m.reaches files) := by
  cases m with
  | moved file key toFile toKey => exact inferInstanceAs (Decidable (toFile ∈ files))
  | renamed file fromKey toKey => exact isTrue trivial
  | spreadToSources file key toKey => exact isTrue trivial
  | retired file key advice => exact isTrue trivial
  | valueRenamed file key fromValue toValue => exact isTrue trivial

/-- The document of a file that was updated. -/
@[simp] theorem update_document (set : Documents) (file other : String) (t : Table) :
    (set.update file t).document other = if other = file then t else set.document other := rfl

/-- An update leaves the files there are. -/
@[simp] theorem update_files (set : Documents) (file : String) (t : Table) :
    (set.update file t).files = set.files := rfl

/-- An update with the document there is. -/
theorem update_self (set : Documents) (file : String) : set.update file (set.document file) = set := by
  obtain ⟨files, document, nodup⟩ := set
  unfold Documents.update
  congr 1
  funext other
  by_cases h : other = file
  · rw [if_pos h, h]
  · rw [if_neg h]

/-- What an entry does to a file it matches: it takes the value, and puts one into each of its
targets, if these are there. -/
theorem act_eq {m : Migration} {sources : List String} {file : String} {set : Documents}
    {v : Value} (h : atPath (steps m.key) (set.document file) = some v) :
    act m sources file set =
      if m.reaches set.files then
        (m.targets sources file).foldlM (putIn (m.puts v) m.putAt)
          (set.update file (m.rest (set.document file)))
      else none := by
  obtain ⟨rest, htake⟩ := takePath_isSome h
  cases m with
  | renamed f fromKey toKey =>
    have htake : takePath (steps fromKey) (set.document file) = some (v, rest) := htake
    simp only [act, htake, Migration.reaches, Migration.targets, Migration.rest, Migration.key,
      Migration.puts, Migration.putAt, if_true, List.foldlM_cons, List.foldlM_nil]
    simp
  | moved f key toFile toKey =>
    have htake : takePath (steps key) (set.document file) = some (v, rest) := htake
    simp only [act, htake, Migration.reaches, Migration.targets, Migration.rest, Migration.key,
      Migration.puts, Migration.putAt, List.foldlM_cons, List.foldlM_nil]
    simp
  | spreadToSources f key toKey =>
    have htake : takePath (steps key) (set.document file) = some (v, rest) := htake
    simp only [act, htake, Migration.reaches, Migration.targets, Migration.rest, Migration.key,
      Migration.puts, Migration.putAt, if_true]
    simp
  | retired f key advice =>
    have htake : takePath (steps key) (set.document file) = some (v, rest) := htake
    simp only [act, htake, Migration.reaches, Migration.targets, Migration.rest, Migration.key,
      if_true, List.foldlM_nil]
    simp
  | valueRenamed f key fromValue toValue =>
    simp only [act, Migration.reaches, Migration.targets, Migration.rest, Migration.puts,
      Migration.putAt, if_true, List.foldlM_cons, List.foldlM_nil, update_self]
    simp

/-- What putting a value into documents of different files leaves. -/
structure PutInto (v : Value) (path : List String) (targets : List String)
    (set set' : Documents) : Prop where
  files : set'.files = set.files
  put : ∀ g ∈ targets, putPath v path (set.document g) = some (set'.document g)
  rest : ∀ g, g ∉ targets → set'.document g = set.document g

/-- What putting a value into documents of different files leaves. -/
theorem putInto_of_foldlM {v : Value} {path targets : List String} (hnodup : targets.Nodup)
    {set set' : Documents} (h : targets.foldlM (putIn v path) set = some set') :
    PutInto v path targets set set' := by
  induction targets generalizing set with
  | nil =>
    cases h
    exact ⟨rfl, by simp, fun _ _ => rfl⟩
  | cons g targets ih =>
    obtain ⟨hg, htargets⟩ := List.nodup_cons.mp hnodup
    rw [List.foldlM_cons] at h
    obtain ⟨set₁, hput, hrest⟩ := Option.bind_eq_some_iff.mp h
    obtain ⟨t, ht, rfl⟩ := Option.map_eq_some_iff.mp hput
    have hinto := ih htargets hrest
    refine ⟨hinto.files, ?_, ?_⟩
    · intro g' hg'
      rcases List.mem_cons.mp hg' with rfl | hmem
      · rw [hinto.rest g' hg, update_document, if_pos rfl]
        exact ht
      · have hne : g' ≠ g := by
          rintro rfl
          exact hg hmem
        have hthere := hinto.put g' hmem
        rwa [update_document, if_neg hne] at hthere
    · intro g' hg'
      rw [List.mem_cons, not_or] at hg'
      rw [hinto.rest g' hg'.2, update_document, if_neg hg'.1]

/-- A value can be put into documents of different files if it can be put into each. -/
theorem foldlM_putIn_isSome {v : Value} {path targets : List String} (hnodup : targets.Nodup)
    {set : Documents} (h : ∀ g ∈ targets, (putPath v path (set.document g)).isSome = true) :
    ∃ set', targets.foldlM (putIn v path) set = some set' := by
  induction targets generalizing set with
  | nil => exact ⟨set, rfl⟩
  | cons g targets ih =>
    obtain ⟨hg, htargets⟩ := List.nodup_cons.mp hnodup
    obtain ⟨t, ht⟩ := Option.isSome_iff_exists.mp (h g List.mem_cons_self)
    obtain ⟨set', hset'⟩ := @ih htargets (set.update g t) (by
      intro g' hg'
      have hne : g' ≠ g := by
        rintro rfl
        exact hg hg'
      rw [update_document, if_neg hne]
      exact h g' (List.mem_cons_of_mem _ hg'))
    refine ⟨set', ?_⟩
    rw [List.foldlM_cons]
    unfold putIn at hset' ⊢
    rw [ht]
    exact hset'

/-- The files an entry puts a value into are different. -/
theorem targets_nodup (m : Migration) {sources : List String} (h : sources.Nodup) (file : String) :
    (m.targets sources file).Nodup := by
  cases m with
  | renamed f fromKey toKey => exact List.nodup_singleton file
  | moved f key toFile toKey => exact List.nodup_singleton toFile
  | spreadToSources f key toKey => exact h
  | retired f key advice => exact List.nodup_nil
  | valueRenamed f key fromValue toValue => exact List.nodup_singleton file

end Acts

section Firing

/-- An entry acts on a file: it is not left where it is, it has somewhere to go, and it matches. -/
structure Fires (m : Migration) (sources : List String) (file : String) (set : Documents) :
    Prop where
  left : leftLine m file set = none
  somewhere : nowhere m sources = false
  matched : m.matchesValue (atPath (steps m.key) (set.document file)) = true

/-- A line about what was left where it is. -/
def Line.isLeft : Line → Bool
  | .left _ _ _ => true
  | .done _ _ => false

/-- An entry that does not act changes nothing, and reports only what it cannot move. -/
theorem replayFile_idle {m : Migration} {sources : List String} {file : String} {set : Documents}
    (h : ¬ Fires m sources file set) : ∃ lines, replayFile m sources file set = some (set, lines) ∧
      ∀ line ∈ lines, line.isLeft = true := by
  unfold replayFile
  cases hleft : leftLine m file set with
  | some line =>
    refine ⟨[line], rfl, ?_⟩
    intro l hl
    rw [List.mem_singleton.mp hl]
    cases m with
    | moved f key toFile toKey =>
      rw [leftLine] at hleft
      split at hleft
      · cases hleft
        rfl
      · cases hleft
    | renamed f fromKey toKey => cases hleft
    | spreadToSources f key toKey => cases hleft
    | retired f key advice => cases hleft
    | valueRenamed f key fromValue toValue => cases hleft
  | none =>
    dsimp only
    by_cases hnowhere : nowhere m sources = true
    · rw [if_pos hnowhere]
      exact ⟨[], rfl, by simp⟩
    · rw [if_neg hnowhere, if_neg]
      · exact ⟨[], rfl, by simp⟩
      · intro hmatch
        exact h ⟨hleft, by simpa using hnowhere, hmatch⟩

/-- An entry that acts says so. -/
theorem replayFile_fires {m : Migration} {sources : List String} {file : String}
    {set : Documents} (h : Fires m sources file set) :
    replayFile m sources file set = (act m sources file set).map fun set' =>
      (set', [.done file m]) := by
  unfold replayFile
  rw [h.left]
  dsimp only
  rw [h.somewhere, if_neg (by simp), if_pos h.matched]

/-- What an entry acts on is there. -/
theorem Fires.value {m : Migration} {sources : List String} {file : String} {set : Documents}
    (h : Fires m sources file set) : ∃ v, atPath (steps m.key) (set.document file) = some v ∧
      m.matchesValue (some v) = true := by
  have hmatched := h.matched
  cases hat : atPath (steps m.key) (set.document file) with
  | none =>
    rw [hat] at hmatched
    cases hmatched
  | some v =>
    rw [hat] at hmatched
    exact ⟨v, rfl, hmatched⟩

/-- An entry cannot act on a file whatever it matches there: its target is missing and it says
so, or it copies into source files of which there are none. -/
def Stuck (m : Migration) (sources files : List String) (t : Table) : Prop :=
  match m with
  | .moved _ key toFile _ => toFile ∉ files ∧ (steps key = [key] ∨ (t.get key).isSome = true)
  | .spreadToSources _ _ _ => sources = []
  | _ => False

/-- An entry acts on a file if it matches there and is not stuck. -/
theorem fires_iff {m : Migration} {sources : List String} {file : String} {set : Documents} :
    Fires m sources file set ↔ ¬ Stuck m sources set.files (set.document file) ∧
      m.matchesValue (atPath (steps m.key) (set.document file)) = true := by
  constructor
  · intro h
    refine ⟨?_, h.matched⟩
    obtain ⟨v, hv, _⟩ := h.value
    intro hstuck
    cases m with
    | moved f key toFile toKey =>
      have hleft := h.left
      obtain ⟨habsent, hkey⟩ := hstuck
      have hget : ((set.document file).get key).isSome = true := by
        rcases hkey with hkey | hkey
        · change atPath (steps key) (set.document file) = some v at hv
          rw [hkey] at hv
          change (set.document file).get key = some v at hv
          rw [hv]
          rfl
        · exact hkey
      rw [leftLine, if_pos ⟨habsent, hget⟩] at hleft
      cases hleft
    | spreadToSources f key toKey =>
      have hsomewhere := h.somewhere
      rw [nowhere, hstuck] at hsomewhere
      cases hsomewhere
    | renamed f fromKey toKey => exact hstuck
    | retired f key advice => exact hstuck
    | valueRenamed f key fromValue toValue => exact hstuck
  · rintro ⟨hstuck, hmatched⟩
    refine ⟨?_, ?_, hmatched⟩
    · cases m with
      | moved f key toFile toKey =>
        rw [leftLine, if_neg]
        rintro ⟨habsent, hget⟩
        exact hstuck ⟨habsent, Or.inr hget⟩
      | renamed f fromKey toKey => rfl
      | spreadToSources f key toKey => rfl
      | retired f key advice => rfl
      | valueRenamed f key fromValue toValue => rfl
    · cases m with
      | spreadToSources f key toKey =>
        cases sources with
        | nil => exact absurd rfl hstuck
        | cons source sources => rfl
      | moved f key toFile toKey => rfl
      | renamed f fromKey toKey => rfl
      | retired f key advice => rfl
      | valueRenamed f key fromValue toValue => rfl

/-- What an act leaves: the document it read without the value, and the value in each target. -/
structure Acted (m : Migration) (sources : List String) (file : String) (v : Value)
    (set set' : Documents) : Prop where
  reaches : m.reaches set.files
  into : PutInto (m.puts v) m.putAt (m.targets sources file)
    (set.update file (m.rest (set.document file))) set'

/-- What an act leaves. -/
theorem acted_of_act {m : Migration} {sources : List String} (hsources : sources.Nodup)
    {file : String} {v : Value} {set set' : Documents}
    (hv : atPath (steps m.key) (set.document file) = some v)
    (h : act m sources file set = some set') : Acted m sources file v set set' := by
  rw [act_eq hv] at h
  by_cases hreach : m.reaches set.files
  · rw [if_pos hreach] at h
    exact ⟨hreach, putInto_of_foldlM (targets_nodup m hsources file) h⟩
  · rw [if_neg hreach] at h
    cases h

end Firing

section Steps

/-- No step of a dotted path holds a dot. -/
theorem dot_not_mem_steps {path step : String} (h : step ∈ steps path) : '.' ∉ step.toList :=
  notMem_of_mem_split h

/-- A path has steps. -/
theorem steps_ne_nil (path : String) : steps path ≠ [] := by
  unfold steps split
  intro h
  exact List.splitOn_ne_nil '.' path.toList (List.map_eq_nil_iff.mp h)

/-- A key with a dot is not one step. -/
theorem steps_eq_singleton {key : String} (h : '.' ∉ key.toList) : steps key = [key] := by
  unfold steps split
  rw [List.splitOn_eq_singleton h]
  simp

/-- Where a value is put, there is a path, none of whose steps holds a dot. -/
theorem putSteps_plain (path : String) : putSteps path ≠ [] ∧
    ∀ step ∈ putSteps path, '.' ∉ step.toList := by
  refine ⟨by simp [putSteps], ?_⟩
  intro step hstep
  rcases List.mem_append.mp hstep with hstep | hstep
  · exact dot_not_mem_steps (List.dropLast_subset _ (List.mem_filter.mp hstep).1)
  · rw [List.mem_singleton.mp hstep]
    cases hlast : (steps path).getLast? with
    | none => simp
    | some last => exact dot_not_mem_steps (List.mem_of_getLast? hlast)

end Steps

section Left

variable {m : Migration} {sources : List String} {file : String} {v : Value}
variable {set set' : Documents}

/-- What an entry leaves of the document it reads, at a name with a dot. -/
theorem rest_get (m : Migration) (t : Table) {key : String} (hdot : '.' ∈ key.toList) :
    (m.rest t).get key = t.get key := by
  have htaken : ((((takePath (steps m.key) t).map Prod.snd).getD t)).get key = t.get key := by
    cases htake : takePath (steps m.key) t with
    | none => rfl
    | some q =>
      obtain ⟨first, others, hsteps⟩ := List.exists_cons_of_ne_nil (steps_ne_nil m.key)
      have hne : ¬ first = key := by
        rintro rfl
        exact dot_not_mem_steps (by rw [hsteps]; exact List.mem_cons_self) hdot
      rw [hsteps] at htake
      exact takePath_get htake hne
  cases m with
  | valueRenamed f key fromValue toValue => rfl
  | moved f key toFile toKey => exact htaken
  | renamed f fromKey toKey => exact htaken
  | spreadToSources f key toKey => exact htaken
  | retired f key advice => exact htaken

/-- The steps of where a value is put hold no dot, where one is put at all. -/
theorem putAt_plain (h : m.targets sources file ≠ []) : m.putAt ≠ [] ∧
    ∀ step ∈ m.putAt, '.' ∉ step.toList := by
  cases m with
  | renamed f fromKey toKey => exact putSteps_plain toKey
  | moved f key toFile toKey => exact putSteps_plain toKey
  | spreadToSources f key toKey => exact putSteps_plain toKey
  | retired f key advice => exact absurd rfl h
  | valueRenamed f key fromValue toValue => exact putSteps_plain key

/-- What stands before the put of an act. -/
theorem Acted.before (_h : Acted m sources file v set set') (g : String) :
    (set.update file (m.rest (set.document file))).document g =
      if g = file then m.rest (set.document g) else set.document g := by
  rw [update_document]
  by_cases hg : g = file
  · rw [if_pos hg, if_pos hg, hg]
  · rw [if_neg hg, if_neg hg]

/-- An act leaves every name with a dot. -/
theorem Acted.get (h : Acted m sources file v set set') (g : String) {key : String}
    (hdot : '.' ∈ key.toList) : (set'.document g).get key = (set.document g).get key := by
  have hbefore : ((set.update file (m.rest (set.document file))).document g).get key =
      (set.document g).get key := by
    rw [h.before]
    by_cases hg : g = file
    · rw [if_pos hg, rest_get m _ hdot]
    · rw [if_neg hg]
  rw [← hbefore]
  by_cases hg : g ∈ m.targets sources file
  · obtain ⟨hne, hplain⟩ := @putAt_plain m sources file (List.ne_nil_of_mem hg)
    obtain ⟨first, others, hput⟩ := List.exists_cons_of_ne_nil hne
    have hfirst : ¬ first = key := by
      rintro rfl
      exact hplain first (by rw [hput]; exact List.mem_cons_self) hdot
    have hinto := h.into.put g hg
    rw [hput] at hinto
    exact putPath_get hinto hfirst
  · rw [h.into.rest g hg]

/-- An act leaves the files there are. -/
theorem Acted.files (h : Acted m sources file v set set') : set'.files = set.files := h.into.files

/-- An act leaves every entry stuck that was. -/
theorem Acted.stuck (h : Acted m sources file v set set') (m' : Migration) (g : String) :
    Stuck m' sources set'.files (set'.document g) ↔ Stuck m' sources set.files (set.document g) := by
  rw [h.files]
  cases m' with
  | moved f key toFile toKey =>
    unfold Stuck
    dsimp only
    by_cases hdot : '.' ∈ key.toList
    · rw [h.get g hdot]
    · simp [steps_eq_singleton hdot]
  | renamed f fromKey toKey => exact Iff.rfl
  | spreadToSources f key toKey => exact Iff.rfl
  | retired f key advice => exact Iff.rfl
  | valueRenamed f key fromValue toValue => exact Iff.rfl

/-- Whether an entry matches what a put of a value at a path leaves, where that path begins the
entry's or the entry's begins it. -/
def Stirs (m : Migration) (path : List String) (v : Value) : Bool :=
  if path <+: steps m.key then m.matchesValue (under v ((steps m.key).drop path.length))
  else decide (steps m.key <+: path) && m.matchesValue (some (.table []))

/-- Every entry matches a table as it matches an empty one. -/
theorem matches_table (m : Migration) (u : Table) :
    m.matchesValue (some (.table u)) = m.matchesValue (some (.table [])) := by
  cases m with
  | valueRenamed f key fromValue toValue => rfl
  | moved f key toFile toKey => rfl
  | renamed f fromKey toKey => rfl
  | spreadToSources f key toKey => rfl
  | retired f key advice => rfl

/-- Whether an entry matches where a value is at a path not apart from the entry's. -/
theorem matches_at (m : Migration) {path : List String} (hpath : path ≠ []) {w : Value} {t : Table}
    (h : atPath path t = some w) (hapart : ¬ Apart (steps m.key) path) :
    m.matchesValue (atPath (steps m.key) t) = Stirs m path w := by
  unfold Stirs
  by_cases hbelow : path <+: steps m.key
  · rw [if_pos hbelow]
    obtain ⟨q, hq⟩ := hbelow
    rw [← hq, atPath_append hpath, h, List.drop_left]
    rfl
  · rw [if_neg hbelow]
    have habove : steps m.key <+: path := by
      by_contra hno
      exact hapart ⟨hno, hbelow⟩
    obtain ⟨q, hq⟩ := habove
    have hne : q ≠ [] := by
      rintro rfl
      rw [List.append_nil] at hq
      exact hbelow (hq ▸ List.prefix_rfl)
    rw [← hq, atPath_append (steps_ne_nil m.key)] at h
    obtain ⟨u, hu⟩ : ∃ u, atPath (steps m.key) t = some (.table u) := by
      obtain ⟨x, hx, hunder⟩ := Option.bind_eq_some_iff.mp h
      obtain ⟨next, others, rfl⟩ := List.exists_cons_of_ne_nil hne
      cases x with
      | string text => cases hunder
      | other text => cases hunder
      | table u => exact ⟨u, hx⟩
    rw [hu, matches_table, decide_eq_true (by rw [← hq]; exact List.prefix_append _ _),
      Bool.true_and]

/-- Whether an entry matches once a value has been put. -/
theorem matches_put (m : Migration) {path : List String} (hpath : path ≠ []) {w : Value}
    {t t' : Table} (h : putPath w path t = some t') :
    m.matchesValue (atPath (steps m.key) t') =
      if Apart (steps m.key) path then m.matchesValue (atPath (steps m.key) t)
      else Stirs m path w := by
  by_cases hapart : Apart (steps m.key) path
  · rw [if_pos hapart, putPath_apart h hapart]
  · have hat := putPath_under [] h
    rw [List.append_nil] at hat
    rw [if_neg hapart]
    exact matches_at m hpath hat hapart

/-- Whether an entry matches what another left of the document it read: only where it did
before, and not where the value was taken. -/
theorem matches_rest (m m' : Migration) (t : Table)
    (h : m'.matchesValue (atPath (steps m'.key) (m.rest t)) = true) :
    m'.matchesValue (atPath (steps m'.key) t) = true := by
  have htaken : ∀ {w : Value} {t' : Table}, takePath (steps m.key) t = some (w, t') →
      m'.matchesValue (atPath (steps m'.key) t') = true →
        m'.matchesValue (atPath (steps m'.key) t) = true := by
    intro w t' htake hmatch
    by_cases hbelow : steps m.key <+: steps m'.key
    · obtain ⟨q, hq⟩ := hbelow
      rw [← hq, takePath_under q htake] at hmatch
      cases hmatch
    · rcases takePath_other htake hbelow with hsame | ⟨_, u, u', hu, hu'⟩
      · rwa [hsame] at hmatch
      · rw [hu', matches_table] at hmatch
        rw [hu, matches_table]
        exact hmatch
  have hall : m'.matchesValue (atPath (steps m'.key)
      (((takePath (steps m.key) t).map Prod.snd).getD t)) = true →
        m'.matchesValue (atPath (steps m'.key) t) = true := by
    intro hmatch
    cases htake : takePath (steps m.key) t with
    | none =>
      rw [htake] at hmatch
      exact hmatch
    | some q =>
      rw [htake] at hmatch
      exact htaken htake hmatch
  cases m with
  | valueRenamed f key fromValue toValue => exact h
  | moved f key toFile toKey => exact hall h
  | renamed f fromKey toKey => exact hall h
  | spreadToSources f key toKey => exact hall h
  | retired f key advice => exact hall h

end Left

end Kerbridge.ConfigMigrations

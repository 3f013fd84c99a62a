import Kerbridge.MigrationTurns

/-!
# When a replay is safe

A replay is safe if it comes to its end, if a second one only reports what it still cannot
move, if no path that no entry names has changed, and if nothing under an entry's new name
was lost. A list and all its beginnings are, over a config set, exactly if every turn that
acts has somewhere to put its value: a way of tables, a place that is free, and nothing there
that an entry up to it would act on.
-/

namespace Kerbridge.ConfigMigrations

open UnicodeText Toml

section Turns

/-- One turn of a replay: an entry over a file, with the entries up to it. -/
structure Turn where
  upTo : List Migration
  entry : Migration
  file : String

/-- The turns of a list behind another. -/
def turnsFrom (files : List String) (past : List Migration) : List Migration → List Turn
  | [] => []
  | m :: rest =>
    ((filesOf files m).map fun file => ⟨past ++ [m], m, file⟩) ++ turnsFrom files (past ++ [m]) rest

/-- The turns of a list. -/
def turns (files : List String) (list : List Migration) : List Turn := turnsFrom files [] list

/-- A turn, without its report. -/
def step (sources : List String) (set : Documents) (t : Turn) : Option Documents :=
  (replayFile t.entry sources t.file set).map Prod.fst

/-- Turns, one after the other. -/
def runs (sources : List String) (ts : List Turn) (set : Documents) : Option Documents :=
  ts.foldlM (step sources) set

/-- Something holds at every turn of a run, of the state before it. -/
def Along (sources : List String) (P : Turn → Documents → Prop) (ts : List Turn)
    (set : Documents) : Prop :=
  ∀ done t rest, ts = done ++ t :: rest → ∀ s, runs sources done set = some s → P t s

end Turns

section Claim

/-- Whether an entry puts a value where it did not read one. -/
def Migration.placesNew : Migration → Prop
  | .retired _ _ _ => False
  | .valueRenamed _ key _ _ => putSteps key ≠ steps key
  | _ => True

/-- The files an entry may put a value into. -/
def Migration.mayReach (file : String) : Migration → Prop
  | .renamed from' _ _ => shapeOf file = from'
  | .moved _ _ toFile _ => file = toFile
  | .spreadToSources _ _ _ => shapeOf file = sourceFile
  | .retired _ _ _ => False
  | .valueRenamed from' _ _ _ => shapeOf file = from'

/-- An entry names a path of a file: what it reads or what it puts is there, above or below. -/
def Migration.names (m : Migration) (file : String) (path : List String) : Prop :=
  (shapeOf file = m.file ∧ ¬ Apart path (steps m.key)) ∨ (m.mayReach file ∧ ¬ Apart path m.putAt)

/-- What stood under an entry's new name still stands there. -/
def Kept (sources : List String) (t : Turn) (s : Documents) : Prop :=
  Fires t.entry sources t.file s → t.entry.placesNew → ∀ s', step sources s t = some s' →
    ∀ g ∈ t.entry.targets sources t.file, ∀ w,
      atPath t.entry.putAt (s.document g) = some w → atPath t.entry.putAt (s'.document g) = some w

/-- A replay is safe. -/
structure Safe (list : List Migration) (set : Documents) : Prop where
  ends : (replayWith list set).isSome = true
  again : ∀ r, replayWith list set = some r → ∃ lines, replayWith list r.1 = some (r.1, lines) ∧
    ∀ line ∈ lines, line.isLeft = true
  framed : ∀ r, replayWith list set = some r → ∀ file ∈ set.files, ∀ path,
    (∀ m ∈ list, ¬ m.names file path) →
      atPath path (r.1.document file) = atPath path (set.document file)
  kept : Along set.sources (Kept set.sources) (turns set.files list) set

end Claim

section Condition

/-- A turn that acts on a value has somewhere to put it. -/
structure Placed (sources : List String) (t : Turn) (s : Documents) (v : Value) : Prop where
  /-- The file it moves to is there. -/
  reaches : t.entry.reaches s.files
  /-- A renamed value is put where it was read. -/
  straight : ∀ file key fromValue toValue, t.entry = .valueRenamed file key fromValue toValue →
    putSteps key = steps key
  /-- The way there leads through tables. -/
  way : ∀ g ∈ t.entry.targets sources t.file, Open t.entry.putAt
    ((s.update t.file (t.entry.rest (s.document t.file))).document g)
  /-- The place is free, or holds just that value. -/
  free : t.entry.placesNew → ∀ g ∈ t.entry.targets sources t.file, ∀ w,
    atPath t.entry.putAt (s.document g) = some w → w = t.entry.puts v
  /-- No entry up to it acts on what it puts. -/
  still : ∀ g ∈ t.entry.targets sources t.file, ∀ m ∈ t.upTo, shapeOf g = m.file →
    Stirs m t.entry.putAt (t.entry.puts v) = true → Stuck m sources s.files (s.document g)

/-- A turn that acts has somewhere to put its value. -/
def Sound (sources : List String) (t : Turn) (s : Documents) : Prop :=
  Fires t.entry sources t.file s → ∀ v,
    atPath (steps t.entry.key) (s.document t.file) = some v → Placed sources t s v

end Condition

section Runs

variable {sources : List String}

/-- What a turn that acts leaves. -/
theorem step_fires {t : Turn} {s s' : Documents} (hsources : sources.Nodup)
    (h : Fires t.entry sources t.file s) {v : Value}
    (hv : atPath (steps t.entry.key) (s.document t.file) = some v)
    (hstep : step sources s t = some s') : Acted t.entry sources t.file v s s' := by
  unfold step at hstep
  rw [replayFile_fires h, Option.map_map] at hstep
  obtain ⟨s₁, hact, heq⟩ := Option.map_eq_some_iff.mp hstep
  cases heq
  exact acted_of_act hsources hv hact

/-- A turn that does not act leaves the state. -/
theorem step_idle {t : Turn} {s : Documents} (h : ¬ Fires t.entry sources t.file s) :
    step sources s t = some s := by
  obtain ⟨lines, heq, _⟩ := replayFile_idle h
  unfold step
  rw [heq]
  rfl

/-- A turn leaves the files there are. -/
theorem step_files {t : Turn} {s s' : Documents} (hsources : sources.Nodup)
    (hstep : step sources s t = some s') : s'.files = s.files := by
  by_cases h : Fires t.entry sources t.file s
  · obtain ⟨v, hv, _⟩ := h.value
    exact (step_fires hsources h hv hstep).files
  · rw [step_idle h] at hstep
    cases hstep
    rfl

/-- Turns in two parts. -/
theorem runs_append (ts ts' : List Turn) (s : Documents) :
    runs sources (ts ++ ts') s = (runs sources ts s).bind (runs sources ts') := by
  unfold runs
  rw [List.foldlM_append]
  rfl

/-- A first turn, and the others. -/
theorem runs_cons (t : Turn) (ts : List Turn) (s : Documents) :
    runs sources (t :: ts) s = (step sources s t).bind (runs sources ts) := by
  unfold runs
  rw [List.foldlM_cons]
  rfl

/-- Turns leave the files there are. -/
theorem runs_files (hsources : sources.Nodup) {ts : List Turn} {s s' : Documents}
    (h : runs sources ts s = some s') : s'.files = s.files := by
  induction ts generalizing s with
  | nil =>
    cases h
    rfl
  | cons t ts ih =>
    rw [runs_cons] at h
    obtain ⟨s₁, hstep, hrest⟩ := Option.bind_eq_some_iff.mp h
    exact (ih hrest).trans (step_files hsources hstep)

/-- Turns leave every entry stuck that was. -/
theorem runs_stuck (hsources : sources.Nodup) {ts : List Turn} {s s' : Documents}
    (h : runs sources ts s = some s') (m : Migration) (g : String) :
    Stuck m sources s'.files (s'.document g) ↔ Stuck m sources s.files (s.document g) := by
  induction ts generalizing s with
  | nil =>
    cases h
    exact Iff.rfl
  | cons t ts ih =>
    rw [runs_cons] at h
    obtain ⟨s₁, hstep, hrest⟩ := Option.bind_eq_some_iff.mp h
    rw [ih hrest]
    by_cases hfires : Fires t.entry sources t.file s
    · obtain ⟨v, hv, _⟩ := hfires.value
      exact (step_fires hsources hfires hv hstep).stuck m g
    · rw [step_idle hfires] at hstep
      cases hstep
      exact Iff.rfl

/-- A turn, with the report so far. -/
def report (sources : List String) (s : Documents × List Line) (t : Turn) :
    Option (Documents × List Line) :=
  turn t.entry sources s t.file

/-- A report is a turn, with its lines behind those there are. -/
theorem report_fst (s : Documents × List Line) (t : Turn) :
    (report sources s t).map Prod.fst = step sources s.1 t := by
  unfold report turn step
  rw [Option.map_map]
  rfl

/-- A report changes the files as its turn does. -/
theorem report_files (hsources : sources.Nodup) {s s' : Documents × List Line} {t : Turn}
    (h : report sources s t = some s') : s'.1.files = s.1.files := by
  refine step_files hsources (t := t) ?_
  rw [← report_fst, h]
  rfl

/-- Reports change the files as their turns do. -/
theorem reports_files (hsources : sources.Nodup) {ts : List Turn} {s s' : Documents × List Line}
    (h : ts.foldlM (report sources) s = some s') : s'.1.files = s.1.files := by
  induction ts generalizing s with
  | nil =>
    cases h
    rfl
  | cons t ts ih =>
    rw [List.foldlM_cons] at h
    obtain ⟨s₁, hstep, hrest⟩ := Option.bind_eq_some_iff.mp h
    exact (ih hrest).trans (report_files hsources hstep)

/-- A replay is its turns. -/
theorem replayWith_turns (list : List Migration) (set : Documents) :
    replayWith list set = (turns set.files list).foldlM (report set.sources) (set, []) := by
  have hlist : ∀ (list past : List Migration) (s : Documents × List Line),
      list.foldlM replayEntry s =
        (turnsFrom s.1.files past list).foldlM (report s.1.sources) s := by
    intro list
    induction list with
    | nil => exact fun _ _ => rfl
    | cons m list ih =>
      intro past s
      rw [List.foldlM_cons, turnsFrom, List.foldlM_append, List.foldlM_map]
      have hentry : replayEntry s m =
          (filesOf s.1.files m).foldlM (fun s' file => report s.1.sources s'
            (⟨past ++ [m], m, file⟩ : Turn)) s := rfl
      rw [← hentry]
      cases hs : replayEntry s m with
      | none => rfl
      | some s' =>
        have hfiles : s'.1.files = s.1.files := by
          rw [hentry, ← List.foldlM_map (f := fun file => (⟨past ++ [m], m, file⟩ : Turn))
            (g := report s.1.sources)] at hs
          exact reports_files (s.1.nodup.filter _) hs
        have hsources : s'.1.sources = s.1.sources := by
          unfold Documents.sources
          rw [hfiles]
        change list.foldlM replayEntry s' =
          (turnsFrom s.1.files (past ++ [m]) list).foldlM (report s.1.sources) s'
        rw [ih (past ++ [m]) s', hfiles, hsources]
  exact hlist list [] (set, [])

/-- What a replay leaves is what its turns leave. -/
theorem replayWith_fst (list : List Migration) (set : Documents) :
    (replayWith list set).map Prod.fst = runs set.sources (turns set.files list) set := by
  have hfold : ∀ (ts : List Turn) (s : Documents × List Line),
      (ts.foldlM (report set.sources) s).map Prod.fst = runs set.sources ts s.1 := by
    intro ts
    induction ts with
    | nil => exact fun _ => rfl
    | cons t ts ih =>
      intro s
      rw [List.foldlM_cons, runs_cons, ← report_fst]
      cases hstep : report set.sources s t with
      | none => rfl
      | some s' => exact ih s'
  rw [replayWith_turns]
  exact hfold _ (set, [])

/-- Turns none of which acts report only what cannot be moved. -/
theorem reports_idle {ts : List Turn} {s : Documents × List Line}
    (h : ∀ t ∈ ts, ¬ Fires t.entry sources t.file s.1) :
    ∃ lines, ts.foldlM (report sources) s = some (s.1, s.2 ++ lines) ∧
      ∀ line ∈ lines, line.isLeft = true := by
  induction ts generalizing s with
  | nil => exact ⟨[], by rw [List.append_nil]; rfl, by simp⟩
  | cons t ts ih =>
    obtain ⟨hfirst, hrest⟩ := List.forall_mem_cons.mp h
    obtain ⟨lines, hreport, hleft⟩ := replayFile_idle hfirst
    have hstep : report sources s t = some (s.1, s.2 ++ lines) := by
      unfold report turn
      rw [hreport]
      rfl
    obtain ⟨more, hmore, hmoreLeft⟩ := @ih (s.1, s.2 ++ lines) hrest
    refine ⟨lines ++ more, ?_, ?_⟩
    · rw [List.foldlM_cons, hstep, ← List.append_assoc]
      exact hmore
    · intro line hline
      rcases List.mem_append.mp hline with hline | hline
      · exact hleft line hline
      · exact hmoreLeft line hline

/-- A report keeps the lines there are. -/
theorem reports_lines {ts : List Turn} {s s' : Documents × List Line}
    (h : ts.foldlM (report sources) s = some s') : s.2 ⊆ s'.2 := by
  induction ts generalizing s with
  | nil =>
    cases h
    exact fun _ hline => hline
  | cons t ts ih =>
    rw [List.foldlM_cons] at h
    obtain ⟨s₁, hstep, hrest⟩ := Option.bind_eq_some_iff.mp h
    obtain ⟨r, _, rfl⟩ := Option.map_eq_some_iff.mp hstep
    exact fun line hline => ih hrest (List.mem_append_left _ hline)

/-- Where only what cannot be moved was reported, no turn acted. -/
theorem idle_of_reports {ts : List Turn} {s s' : Documents × List Line}
    (h : ts.foldlM (report sources) s = some s') (hleft : ∀ line ∈ s'.2, line.isLeft = true) :
    ∀ t ∈ ts, ¬ Fires t.entry sources t.file s.1 := by
  induction ts generalizing s with
  | nil => simp
  | cons t ts ih =>
    rw [List.foldlM_cons] at h
    obtain ⟨s₁, hstep, hrest⟩ := Option.bind_eq_some_iff.mp h
    have hidle : ¬ Fires t.entry sources t.file s.1 := by
      intro hfires
      unfold report turn at hstep
      rw [replayFile_fires hfires] at hstep
      obtain ⟨r, hr, rfl⟩ := Option.map_eq_some_iff.mp hstep
      obtain ⟨s₂, _, rfl⟩ := Option.map_eq_some_iff.mp hr
      have hdone := hleft _ (reports_lines hrest
        (List.mem_append_right s.2 (List.mem_singleton.mpr rfl)))
      cases hdone
    refine List.forall_mem_cons.mpr ⟨hidle, ?_⟩
    obtain ⟨lines, hreport, _⟩ := replayFile_idle hidle
    have hs₁ : s₁.1 = s.1 := by
      unfold report turn at hstep
      rw [hreport] at hstep
      cases hstep
      rfl
    rw [← hs₁]
    exact ih hrest

/-- The turns of a list, each with an entry of the list over a file it is about. -/
theorem mem_turnsFrom {files : List String} {list past : List Migration} {t : Turn}
    (h : t ∈ turnsFrom files past list) : t.entry ∈ list ∧ t.entry ∈ t.upTo ∧
      t.upTo ⊆ past ++ list ∧ t.file ∈ files ∧ shapeOf t.file = t.entry.file := by
  induction list generalizing past with
  | nil => cases h
  | cons m list ih =>
    rw [turnsFrom] at h
    rcases List.mem_append.mp h with h | h
    · obtain ⟨file, hfile, rfl⟩ := List.mem_map.mp h
      obtain ⟨hmem, hshape⟩ := List.mem_filter.mp hfile
      refine ⟨List.mem_cons_self, by simp, ?_, hmem, by simpa using hshape⟩
      intro m' hm'
      rcases List.mem_append.mp hm' with hm' | hm'
      · exact List.mem_append_left _ hm'
      · rw [List.mem_singleton.mp hm']
        simp
    · obtain ⟨hlist, hself, hsub, hfile, hshape⟩ := ih h
      refine ⟨List.mem_cons_of_mem _ hlist, hself, ?_, hfile, hshape⟩
      intro m' hm'
      have hm' := hsub hm'
      simpa using hm'

/-- Every entry has a turn for each file it is about. -/
theorem turn_of_mem {files : List String} {list : List Migration} (past : List Migration)
    {m : Migration} {file : String} (hm : m ∈ list) (hfile : file ∈ files)
    (hshape : shapeOf file = m.file) :
    ∃ t ∈ turnsFrom files past list, t.entry = m ∧ t.file = file := by
  induction list generalizing past with
  | nil => cases hm
  | cons m' list ih =>
    rw [turnsFrom]
    rcases List.mem_cons.mp hm with rfl | hm
    · refine ⟨⟨past ++ [m], m, file⟩, List.mem_append_left _ ?_, rfl, rfl⟩
      exact List.mem_map_of_mem (List.mem_filter.mpr ⟨hfile, by simpa using hshape⟩)
    · obtain ⟨t, ht, heq⟩ := ih (past ++ [m']) hm
      exact ⟨t, List.mem_append_right _ ht, heq⟩

/-- The turns of a beginning of a list begin the turns of the list. -/
theorem turnsFrom_append (files : List String) (past list list' : List Migration) :
    turnsFrom files past (list ++ list') =
      turnsFrom files past list ++ turnsFrom files (past ++ list) list' := by
  induction list generalizing past with
  | nil => rw [List.append_nil]; rfl
  | cons m list ih =>
    have hpast : past ++ m :: list = past ++ [m] ++ list := by simp
    rw [List.cons_append, turnsFrom, turnsFrom, ih, hpast, ← List.append_assoc]

/-- A turn stands in the turns of the entries up to it, before turns of the same entry over
other files only. The entries before it are among those up to it. -/
theorem turnsFrom_split {files : List String} (hfiles : files.Nodup)
    {past list : List Migration} {done rest : List Turn} {t : Turn}
    (h : turnsFrom files past list = done ++ t :: rest) :
    ∃ n others, t.upTo = past ++ list.take (n + 1) ∧
      turnsFrom files past (list.take (n + 1)) = done ++ t :: others ∧
        ∀ t' ∈ others, t'.entry = t.entry ∧ t'.file ≠ t.file := by
  induction list generalizing past done with
  | nil =>
    rw [turnsFrom] at h
    exact absurd h.symm (by simp)
  | cons m list ih =>
    rw [turnsFrom] at h
    rcases List.append_eq_append_iff.mp h with ⟨later, hdone, hlater⟩ | ⟨more, hfirst, hmore⟩
    · -- the turn is of a later entry
      obtain ⟨n, others, hupTo, hsplit, hothers⟩ := ih hlater
      refine ⟨n + 1, others, ?_, ?_, hothers⟩
      · rw [hupTo, List.take_succ_cons (i := n + 1), List.append_assoc]
        rfl
      · rw [List.take_succ_cons, turnsFrom, hsplit, hdone, List.append_assoc]
    · cases more with
      | nil =>
        rw [List.nil_append] at hmore
        have hnext : turnsFrom files (past ++ [m]) list = [] ++ t :: rest := hmore.symm
        obtain ⟨n, others, hupTo, hsplit, hothers⟩ := ih hnext
        refine ⟨n + 1, others, ?_, ?_, hothers⟩
        · rw [hupTo, List.take_succ_cons (i := n + 1), List.append_assoc]
          rfl
        · rw [List.take_succ_cons, turnsFrom, hsplit, hfirst, List.append_nil, List.nil_append]
      | cons t₁ others =>
        rw [List.cons_append] at hmore
        obtain ⟨rfl, _⟩ := List.cons.inj hmore
        have hturn : ∀ t' ∈ done ++ t :: others, t'.upTo = past ++ [m] ∧ t'.entry = m := by
          intro t' ht'
          rw [← hfirst] at ht'
          obtain ⟨file, _, rfl⟩ := List.mem_map.mp ht'
          exact ⟨rfl, rfl⟩
        have hdistinct : ((done ++ t :: others).map Turn.file).Nodup := by
          have hfilesOf : (filesOf files m).Nodup := hfiles.filter _
          rw [← hfirst, List.map_map]
          exact hfilesOf.map fun _ _ heq => heq
        rw [List.map_append, List.map_cons] at hdistinct
        have hfile := (List.nodup_cons.mp (List.nodup_append.mp hdistinct).2.1).1
        obtain ⟨hupTo, hentry⟩ := hturn t (by simp)
        refine ⟨0, others, hupTo, ?_, ?_⟩
        · rw [List.take_succ_cons, List.take_zero, turnsFrom, turnsFrom, List.append_nil, hfirst]
        · intro t' ht'
          refine ⟨(hturn t' (by simp [ht'])).2.trans hentry.symm, ?_⟩
          intro heq
          exact hfile (by rw [← heq]; exact List.mem_map_of_mem ht')

end Runs

section Sufficient

variable {sources : List String} {t : Turn} {s s' : Documents} {v : Value}

/-- What stands where an act has put its value. -/
theorem Acted.put_at {m : Migration} {file : String} (h : Acted m sources file v s s') {g : String}
    (hg : g ∈ m.targets sources file) :
    atPath m.putAt (s'.document g) = some (m.puts v) := by
  have hat := putPath_under [] (h.into.put g hg)
  rwa [List.append_nil] at hat

/-- An entry that an act leaves matching somewhere matched there before, or the act has put what
it matches. -/
theorem Acted.matched {m m' : Migration} {file : String} (h : Acted m sources file v s s')
    {g : String} (hmatch : m'.matchesValue (atPath (steps m'.key) (s'.document g)) = true)
    (hquiet : g ∈ m.targets sources file → ¬ Apart (steps m'.key) m.putAt →
      Stirs m' m.putAt (m.puts v) = false) :
    m'.matchesValue (atPath (steps m'.key)
      ((s.update file (m.rest (s.document file))).document g)) = true := by
  by_cases hg : g ∈ m.targets sources file
  · obtain ⟨hne, _⟩ := @putAt_plain m sources file (List.ne_nil_of_mem hg)
    rw [matches_put m' hne (h.into.put g hg)] at hmatch
    by_cases hapart : Apart (steps m'.key) m.putAt
    · rwa [if_pos hapart] at hmatch
    · rw [if_neg hapart, hquiet hg hapart] at hmatch
      cases hmatch
  · rwa [h.into.rest g hg] at hmatch

/-- An entry does not match what it left of the document it read. -/
theorem rest_unmatched {m : Migration} {table : Table}
    (hv : atPath (steps m.key) table = some v) :
    atPath (steps m.key) (m.rest table) = none ∨
      ∃ file key fromValue toValue, m = .valueRenamed file key fromValue toValue := by
  obtain ⟨table', htake⟩ := takePath_isSome hv
  have hnone : atPath (steps m.key) (((takePath (steps m.key) table).map Prod.snd).getD table) =
      none := by
    have hunder := takePath_under [] htake
    rw [List.append_nil] at hunder
    rw [htake]
    exact hunder
  cases m with
  | valueRenamed file key fromValue toValue => exact Or.inr ⟨file, key, fromValue, toValue, rfl⟩
  | moved file key toFile toKey => exact Or.inl hnone
  | renamed file fromKey toKey => exact Or.inl hnone
  | spreadToSources file key toKey => exact Or.inl hnone
  | retired file key advice => exact Or.inl hnone

/-- A path is not apart from itself. -/
theorem not_apart_self (p : List String) : ¬ Apart p p := fun h => h.1 List.prefix_rfl

/-- After an act that has somewhere to put its value, no entry up to it acts that did not
before, and it does not act again. -/
theorem idle_after (hacted : Acted t.entry sources t.file v s s')
    (hplaced : Placed sources t s v) (hv : atPath (steps t.entry.key) (s.document t.file) = some v)
    {m : Migration} {g : String} (hm : m ∈ t.upTo) (hshape : shapeOf g = m.file)
    (hidle : ¬ Fires m sources g s ∨ m = t.entry ∧ g = t.file) : ¬ Fires m sources g s' := by
  intro hfires
  obtain ⟨hstuck, hmatch⟩ := fires_iff.mp hfires
  rw [hacted.stuck] at hstuck
  have hquiet : g ∈ t.entry.targets sources t.file → ¬ Apart (steps m.key) t.entry.putAt →
      Stirs m t.entry.putAt (t.entry.puts v) = false := by
    intro hg _
    by_contra hstirs
    exact hstuck (hplaced.still g hg m hm hshape (by simpa using hstirs))
  have hbefore := hacted.matched hmatch hquiet
  rw [hacted.before] at hbefore
  rcases hidle with hidle | ⟨rfl, rfl⟩
  · refine hidle (fires_iff.mpr ⟨hstuck, ?_⟩)
    by_cases hg : g = t.file
    · rw [if_pos hg] at hbefore
      exact matches_rest _ m _ hbefore
    · rwa [if_neg hg] at hbefore
  · rw [if_pos rfl] at hbefore
    rcases rest_unmatched hv with hnone | ⟨file, key, fromValue, toValue, heq⟩
    · rw [hnone] at hbefore
      cases hbefore
    · -- a renamed value was put where it was read
      have htarget : t.file ∈ t.entry.targets sources t.file := by
        rw [heq]
        exact List.mem_singleton.mpr rfl
      have hat := hacted.put_at htarget
      have hput : t.entry.putAt = steps t.entry.key := by
        rw [heq]
        exact hplaced.straight file key fromValue toValue heq
      have hsame : ¬ Apart (steps t.entry.key) t.entry.putAt := by
        rw [hput]
        exact not_apart_self _
      have hstirs := hquiet htarget hsame
      obtain ⟨hne, _⟩ := @putAt_plain t.entry sources t.file (List.ne_nil_of_mem htarget)
      rw [matches_at t.entry hne hat hsame, hstirs] at hmatch
      cases hmatch

/-- A turn that acts and has somewhere to put its value succeeds. -/
theorem step_of_placed (hsources : sources.Nodup) (hfires : Fires t.entry sources t.file s)
    (hv : atPath (steps t.entry.key) (s.document t.file) = some v)
    (hplaced : Placed sources t s v) : ∃ s', step sources s t = some s' := by
  have hputs : ∀ g ∈ t.entry.targets sources t.file, (putPath (t.entry.puts v) t.entry.putAt
      ((s.update t.file (t.entry.rest (s.document t.file))).document g)).isSome = true := by
    intro g hg
    obtain ⟨hne, _⟩ := @putAt_plain t.entry sources t.file (List.ne_nil_of_mem hg)
    exact (putPath_isSome _ hne _).mpr (hplaced.way g hg)
  obtain ⟨s', hs'⟩ := foldlM_putIn_isSome (targets_nodup t.entry hsources t.file) hputs
  refine ⟨s', ?_⟩
  unfold step
  rw [replayFile_fires hfires, act_eq hv, if_pos hplaced.reaches, hs']
  rfl

/-- Turns that are sound wherever the run gets to end, and none acts afterwards. -/
theorem runs_sound (hsources : sources.Nodup) {ts : List Turn} {set : Documents}
    (hsound : Along sources (Sound sources) ts set)
    (hself : ∀ t ∈ ts, t.entry ∈ t.upTo ∧ shapeOf t.file = t.entry.file)
    (hpast : ∀ done t rest, ts = done ++ t :: rest → ∀ t' ∈ done, t'.entry ∈ t.upTo) :
    ∃ s', runs sources ts set = some s' ∧ ∀ t ∈ ts, ¬ Fires t.entry sources t.file s' := by
  have hrun : ∀ (rest done : List Turn) (s : Documents), ts = done ++ rest →
      runs sources done set = some s → (∀ t ∈ done, ¬ Fires t.entry sources t.file s) →
        ∃ s', runs sources rest s = some s' ∧ ∀ t ∈ ts, ¬ Fires t.entry sources t.file s' := by
    intro rest
    induction rest with
    | nil =>
      intro done s hts _ hidle
      rw [List.append_nil] at hts
      exact ⟨s, rfl, by rw [hts]; exact hidle⟩
    | cons t rest ih =>
      intro done s hts hdone hidle
      have hnext : ts = (done ++ [t]) ++ rest := by rw [hts]; simp
      have hstep : ∃ s₁, step sources s t = some s₁ ∧
          ∀ t' ∈ done ++ [t], ¬ Fires t'.entry sources t'.file s₁ := by
        by_cases hfires : Fires t.entry sources t.file s
        · obtain ⟨v, hv, _⟩ := hfires.value
          have hplaced := hsound done t rest hts s hdone hfires v hv
          obtain ⟨s₁, hs₁⟩ := step_of_placed hsources hfires hv hplaced
          have hacted := step_fires hsources hfires hv hs₁
          refine ⟨s₁, hs₁, ?_⟩
          intro t' ht'
          have hshape := (hself t' (by rw [hnext]; exact List.mem_append_left _ ht')).2
          rcases List.mem_append.mp ht' with ht' | ht'
          · exact idle_after hacted hplaced hv (hpast done t rest hts t' ht') hshape
              (Or.inl (hidle t' ht'))
          · rw [List.mem_singleton.mp ht'] at hshape ⊢
            exact idle_after hacted hplaced hv (hself t (by rw [hts]; simp)).1 hshape
              (Or.inr ⟨rfl, rfl⟩)
        · refine ⟨s, step_idle hfires, ?_⟩
          intro t' ht'
          rcases List.mem_append.mp ht' with ht' | ht'
          · exact hidle t' ht'
          · rw [List.mem_singleton.mp ht']
            exact hfires
      obtain ⟨s₁, hs₁, hidle₁⟩ := hstep
      have hdone₁ : runs sources (done ++ [t]) set = some s₁ := by
        rw [runs_append, hdone]
        change runs sources [t] s = some s₁
        rw [runs_cons, hs₁]
        rfl
      obtain ⟨s', hs', hend⟩ := ih (done ++ [t]) s₁ hnext hdone₁ hidle₁
      refine ⟨s', ?_, hend⟩
      rw [runs_cons, hs₁]
      exact hs'
  exact hrun ts [] set rfl rfl (by simp)

end Sufficient

end Kerbridge.ConfigMigrations

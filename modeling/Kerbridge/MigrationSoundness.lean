import Kerbridge.MigrationSafety

/-!
# When a replay is safe

A replay of a list, and of each of its beginnings, is safe exactly if every turn that acts has
somewhere to put its value. The list that ships is safe on a set only then.
-/

namespace Kerbridge.ConfigMigrations

open UnicodeText Toml

section Frame

variable {sources : List String} {t : Turn} {s s' : Documents} {v : Value}

/-- The files an entry puts a value into are files it may reach. -/
theorem mayReach_of_mem {m : Migration} {set : Documents} {file g : String}
    (hfile : shapeOf file = m.file) (hg : g ∈ m.targets set.sources file) : m.mayReach g := by
  cases m with
  | renamed f fromKey toKey =>
    rw [List.mem_singleton.mp hg]
    exact hfile
  | moved f key toFile toKey => exact List.mem_singleton.mp hg
  | spreadToSources f key toKey =>
    have hsource : shapeOf g = sourceFile := by simpa using (List.mem_filter.mp hg).2
    exact hsource
  | retired f key advice => cases hg
  | valueRenamed f key fromValue toValue =>
    rw [List.mem_singleton.mp hg]
    exact hfile

/-- What an entry leaves of the document it reads, at a path apart from what it reads. -/
theorem rest_apart (m : Migration) (table : Table) {path : List String}
    (h : Apart path (steps m.key)) : atPath path (m.rest table) = atPath path table := by
  have htaken : atPath path (((takePath (steps m.key) table).map Prod.snd).getD table) =
      atPath path table := by
    cases htake : takePath (steps m.key) table with
    | none => rfl
    | some q =>
      rcases takePath_other htake h.2 with hsame | ⟨habove, _⟩
      · exact hsame
      · exact absurd habove h.1
  cases m with
  | valueRenamed file key fromValue toValue => rfl
  | moved file key toFile toKey => exact htaken
  | renamed file fromKey toKey => exact htaken
  | spreadToSources file key toKey => exact htaken
  | retired file key advice => exact htaken

/-- A turn leaves every path that its entry does not name. -/
theorem step_framed {set : Documents} (hnodup : set.sources.Nodup)
    (hshape : shapeOf t.file = t.entry.file) (hstep : step set.sources s t = some s')
    {file : String} {path : List String} (hnames : ¬ t.entry.names file path) :
    atPath path (s'.document file) = atPath path (s.document file) := by
  by_cases hfires : Fires t.entry set.sources t.file s
  · obtain ⟨v, hv, _⟩ := hfires.value
    have hacted := step_fires hnodup hfires hv hstep
    have hbefore : atPath path
        ((s.update t.file (t.entry.rest (s.document t.file))).document file) =
          atPath path (s.document file) := by
      rw [hacted.before]
      by_cases hfile : file = t.file
      · have hread : Apart path (steps t.entry.key) := by
          by_contra hno
          exact hnames (Or.inl ⟨by rw [hfile]; exact hshape, hno⟩)
        rw [if_pos hfile, rest_apart _ _ hread]
      · rw [if_neg hfile]
    by_cases hg : file ∈ t.entry.targets set.sources t.file
    · have hput : Apart path t.entry.putAt := by
        by_contra hno
        exact hnames (Or.inr ⟨mayReach_of_mem hshape hg, hno⟩)
      rw [putPath_apart (hacted.into.put file hg) hput, hbefore]
    · rw [hacted.into.rest file hg, hbefore]
  · rw [step_idle hfires] at hstep
    cases hstep
    rfl

/-- Turns leave every path that none of their entries names. -/
theorem runs_framed {set : Documents} (hnodup : set.sources.Nodup) {ts : List Turn}
    (hshape : ∀ t ∈ ts, shapeOf t.file = t.entry.file) {s s' : Documents}
    (hruns : runs set.sources ts s = some s') {file : String} {path : List String}
    (hnames : ∀ t ∈ ts, ¬ t.entry.names file path) :
    atPath path (s'.document file) = atPath path (s.document file) := by
  induction ts generalizing s with
  | nil =>
    cases hruns
    rfl
  | cons t ts ih =>
    obtain ⟨hfirst, hothers⟩ := List.forall_mem_cons.mp hnames
    obtain ⟨hshapeFirst, hshapes⟩ := List.forall_mem_cons.mp hshape
    rw [runs_cons] at hruns
    obtain ⟨s₁, hstep, hrest⟩ := Option.bind_eq_some_iff.mp hruns
    rw [ih hshapes hrest hothers, step_framed hnodup hshapeFirst hstep hfirst]

/-- A turn that has somewhere to put its value keeps what stands there. -/
theorem kept_of_sound (hsources : sources.Nodup) (h : Sound sources t s) : Kept sources t s := by
  intro hfires hnew s' hstep g hg w hw
  obtain ⟨v, hv, _⟩ := hfires.value
  have hplaced := h hfires v hv
  have hacted := step_fires hsources hfires hv hstep
  rw [hacted.put_at hg, hplaced.free hnew g hg w hw]

end Frame

section Sufficient

/-- The source files of a set are different. -/
theorem sources_nodup (set : Documents) : set.sources.Nodup := set.nodup.filter _

/-- The turns before a turn are of entries up to it. -/
theorem before_upTo {files : List String} (hfiles : files.Nodup) {list : List Migration}
    {done rest : List Turn} {t : Turn} (h : turns files list = done ++ t :: rest) :
    ∀ t' ∈ done, t'.entry ∈ t.upTo := by
  obtain ⟨n, others, hupTo, hsplit, _⟩ := turnsFrom_split hfiles h
  intro t' ht'
  have hmem : t' ∈ turnsFrom files [] (list.take (n + 1)) := by
    rw [hsplit]
    exact List.mem_append_left _ ht'
  rw [hupTo]
  exact (mem_turnsFrom hmem).1

/-- Where every turn that acts has somewhere to put its value, a replay is safe. -/
theorem safe_of_sound {list : List Migration} {set : Documents}
    (h : Along set.sources (Sound set.sources) (turns set.files list) set) : Safe list set := by
  have hself : ∀ t ∈ turns set.files list, t.entry ∈ t.upTo ∧ shapeOf t.file = t.entry.file := by
    intro t ht
    obtain ⟨_, hself, _, _, hshape⟩ := mem_turnsFrom ht
    exact ⟨hself, hshape⟩
  obtain ⟨s', hruns, hidle⟩ := runs_sound (sources_nodup set) h hself
    fun _ _ _ hsplit => before_upTo set.nodup hsplit
  have hfst := replayWith_fst list set
  rw [hruns] at hfst
  have hresult : ∀ r, replayWith list set = some r → r.1 = s' := by
    intro r hr
    rw [hr] at hfst
    exact Option.some.inj hfst
  refine ⟨?_, ?_, ?_, ?_⟩
  · rw [← Option.isSome_map (f := Prod.fst), hfst]
    rfl
  · intro r hr
    have hfiles : s'.files = set.files := runs_files (sources_nodup set) hruns
    have hsources : s'.sources = set.sources := by
      unfold Documents.sources
      rw [hfiles]
    obtain ⟨lines, hlines, hleft⟩ := reports_idle (s := (s', [])) hidle
    refine ⟨lines, ?_, hleft⟩
    rw [hresult r hr, replayWith_turns, hfiles, hsources, hlines]
    rfl
  · intro r hr file _ path hnames
    rw [hresult r hr]
    exact runs_framed (sources_nodup set) (fun t ht => (hself t ht).2) hruns
      fun t ht => hnames t.entry (mem_turnsFrom ht).1
  · intro done t rest hsplit s hs
    exact kept_of_sound (sources_nodup set) (h done t rest hsplit s hs)

/-- What holds along the turns of a list holds along those of its beginnings. -/
theorem along_take {P : Turn → Documents → Prop} {list : List Migration} {set : Documents}
    (h : Along set.sources P (turns set.files list) set) (n : ℕ) :
    Along set.sources P (turns set.files (list.take n)) set := by
  intro done t rest hsplit s hs
  refine h done t (rest ++ turnsFrom set.files ([] ++ list.take n) (list.drop n)) ?_ s hs
  have hwhole : turns set.files list = turns set.files (list.take n) ++
      turnsFrom set.files ([] ++ list.take n) (list.drop n) := by
    have happend := turnsFrom_append set.files [] (list.take n) (list.drop n)
    rw [List.take_append_drop] at happend
    exact happend
  rw [hwhole, hsplit, List.append_assoc, List.cons_append]

end Sufficient

section Necessary

variable {sources : List String} {t : Turn} {s s' : Documents} {v : Value}

/-- A file an entry puts into over one file is a target over each other one, or that file. -/
theorem targets_cases {m : Migration} {file g : String} (hg : g ∈ m.targets sources file)
    (file' : String) :
    (g ∈ m.targets sources file' ∧ m.placesNew) ∨ (g = file ∧ m.targets sources file' = [file']) := by
  cases m with
  | renamed f fromKey toKey => exact Or.inr ⟨List.mem_singleton.mp hg, rfl⟩
  | moved f key toFile toKey => exact Or.inl ⟨hg, trivial⟩
  | spreadToSources f key toKey => exact Or.inl ⟨hg, trivial⟩
  | retired f key advice => cases hg
  | valueRenamed f key fromValue toValue => exact Or.inr ⟨List.mem_singleton.mp hg, rfl⟩

/-- A turn of the same entry over another file keeps what one put. -/
theorem step_persists (hsources : sources.Nodup) {t t' : Turn} (hentry : t'.entry = t.entry)
    (hfile : t'.file ≠ t.file) (hkept : Kept sources t' s) (hstep : step sources s t' = some s')
    {g : String} (hg : g ∈ t.entry.targets sources t.file) {w : Value}
    (hw : atPath t.entry.putAt (s.document g) = some w) :
    atPath t.entry.putAt (s'.document g) = some w := by
  by_cases hfires : Fires t'.entry sources t'.file s
  · rw [← hentry] at hw ⊢
    rcases targets_cases hg t'.file with ⟨htarget, hnew⟩ | ⟨hself, htargets⟩
    · rw [← hentry] at htarget hnew
      exact hkept hfires hnew s' hstep g htarget w hw
    · obtain ⟨v, hv, _⟩ := hfires.value
      have hacted := step_fires hsources hfires hv hstep
      have hother : ¬ g = t'.file := by
        intro heq
        exact hfile (heq.symm.trans hself)
      have hnot : g ∉ t'.entry.targets sources t'.file := by
        rw [hentry, htargets]
        exact fun hmem => hother (List.mem_singleton.mp hmem)
      rw [hacted.into.rest g hnot, hacted.before, if_neg hother]
      exact hw
  · rw [step_idle hfires] at hstep
    cases hstep
    exact hw

/-- Turns of the same entry over other files keep what one put. -/
theorem runs_persist (hsources : sources.Nodup) {ts : List Turn} {set : Documents}
    (hkept : Along sources (Kept sources) ts set) {t : Turn} {g : String}
    (hg : g ∈ t.entry.targets sources t.file) {w : Value} {others done : List Turn}
    (hts : ts = done ++ others) (hdone : runs sources done set = some s)
    (hothers : ∀ t' ∈ others, t'.entry = t.entry ∧ t'.file ≠ t.file)
    (hruns : runs sources others s = some s') (hw : atPath t.entry.putAt (s.document g) = some w) :
    atPath t.entry.putAt (s'.document g) = some w := by
  induction others generalizing done s with
  | nil =>
    cases hruns
    exact hw
  | cons t' others ih =>
    obtain ⟨⟨hentry, hfile⟩, hrest⟩ := List.forall_mem_cons.mp hothers
    rw [runs_cons] at hruns
    obtain ⟨s₁, hstep, hruns⟩ := Option.bind_eq_some_iff.mp hruns
    have hdone₁ : runs sources (done ++ [t']) set = some s₁ := by
      rw [runs_append, hdone]
      change runs sources [t'] s = some s₁
      rw [runs_cons, hstep]
      rfl
    have hw₁ := step_persists hsources hentry hfile (hkept done t' others hts s hdone) hstep hg hw
    exact ih (by rw [hts]; simp) hdone₁ hrest hruns hw₁

/-- The end of a safe replay, and what no entry does there. -/
theorem Safe.idle {list : List Migration} {set : Documents} (h : Safe list set) :
    ∃ s', runs set.sources (turns set.files list) set = some s' ∧
      ∀ t ∈ turns set.files list, ¬ Fires t.entry set.sources t.file s' := by
  obtain ⟨r, hr⟩ := Option.isSome_iff_exists.mp h.ends
  have hfst := replayWith_fst list set
  rw [hr] at hfst
  obtain ⟨lines, hagain, hleft⟩ := h.again r hr
  have hfiles : r.1.files = set.files := runs_files (sources_nodup set) hfst.symm
  have hsources : r.1.sources = set.sources := by
    unfold Documents.sources
    rw [hfiles]
  rw [replayWith_turns, hfiles, hsources] at hagain
  exact ⟨r.1, hfst.symm, idle_of_reports (s := (r.1, [])) hagain hleft⟩

/-- A path that an entry's put stirs is not apart from what the entry reads. -/
theorem not_apart_of_stirs {m : Migration} {path : List String} {w : Value}
    (h : Stirs m path w = true) : ¬ Apart (steps m.key) path := by
  intro hapart
  unfold Stirs at h
  rw [if_neg hapart.2, Bool.and_eq_true] at h
  exact hapart.1 (by simpa using h.1)

/-- A file an entry puts a value into is there. -/
theorem target_mem {m : Migration} {set : Documents} {file g : String} (hfile : file ∈ set.files)
    (hreach : m.reaches set.files) (hg : g ∈ m.targets set.sources file) : g ∈ set.files := by
  cases m with
  | renamed f fromKey toKey =>
    rw [List.mem_singleton.mp hg]
    exact hfile
  | moved f key toFile toKey =>
    rw [List.mem_singleton.mp hg]
    exact hreach
  | spreadToSources f key toKey => exact (List.mem_filter.mp hg).1
  | retired f key advice => cases hg
  | valueRenamed f key fromValue toValue =>
    rw [List.mem_singleton.mp hg]
    exact hfile

/-- The way to where an act has put its value leads through tables. -/
theorem Acted.way {m : Migration} {file : String} (h : Acted m sources file v s s') {g : String}
    (hg : g ∈ m.targets sources file) :
    Open m.putAt ((s.update file (m.rest (s.document file))).document g) := by
  obtain ⟨hne, _⟩ := @putAt_plain m sources file (List.ne_nil_of_mem hg)
  rw [← putPath_isSome (m.puts v) hne, h.into.put g hg]
  rfl

/-- A value is put along the steps it was read along, or along fewer. -/
theorem putSteps_length (key : String) :
    putSteps key = steps key ∨ (putSteps key).length < (steps key).length := by
  have hlast : steps key = (steps key).dropLast ++ [(steps key).getLast?.getD ""] := by
    rw [List.getLast?_eq_some_getLast (steps_ne_nil key), Option.getD_some,
      List.dropLast_concat_getLast]
  by_cases hall : (steps key).dropLast.filter (· ≠ "") = (steps key).dropLast
  · left
    unfold putSteps
    rw [hall, ← hlast]
  · right
    have hshort : ((steps key).dropLast.filter (· ≠ "")).length < (steps key).dropLast.length := by
      refine lt_of_le_of_ne (List.length_filter_le _ _) ?_
      intro hlength
      exact hall (List.filter_eq_self.mpr (List.length_filter_eq_length_iff.mp hlength))
    unfold putSteps
    rw [hlast, List.length_append, List.length_append]
    simp only [List.length_singleton, List.dropLast_concat] at hshort ⊢
    omega

/-- Where a renamed value is kept, and not matched again, it was put where it was read. -/
theorem straight_of_kept {file key fromValue toValue : String}
    (hentry : t.entry = .valueRenamed file key fromValue toValue)
    (hfires : Fires t.entry sources t.file s)
    (hacted : Acted t.entry sources t.file v s s') (hkept : Kept sources t s)
    (hstep : step sources s t = some s')
    (hidle : t.entry.matchesValue (atPath (steps t.entry.key) (s'.document t.file)) = false) :
    putSteps key = steps key := by
  by_contra hcrooked
  have htarget : t.file ∈ t.entry.targets sources t.file := by
    rw [hentry]
    exact List.mem_singleton.mpr rfl
  have hput : t.entry.putAt = putSteps key := by rw [hentry]; rfl
  have hread : t.entry.key = key := by rw [hentry]; rfl
  have hnew : t.entry.placesNew := by
    rw [hentry]
    exact hcrooked
  have hstands : atPath (putSteps key) (s'.document t.file) = some (.string toValue) := by
    have hat := hacted.put_at htarget
    rwa [hput, hentry] at hat
  obtain ⟨w, hw, _⟩ := hfires.value
  rw [hread] at hw hidle
  by_cases hapart : Apart (steps key) (putSteps key)
  · have hsame : atPath (steps key) (s'.document t.file) = atPath (steps key) (s.document t.file) := by
      have hinto := hacted.into.put t.file htarget
      rw [hput] at hinto
      rw [putPath_apart hinto hapart, hacted.before, if_pos rfl, hentry]
      rfl
    have hmatched := hfires.matched
    rw [hread, ← hsame, hidle] at hmatched
    cases hmatched
  · have hlength : (putSteps key).length < (steps key).length :=
      (putSteps_length key).resolve_left hcrooked
    have hbelow : putSteps key <+: steps key := by
      by_contra hno
      refine hapart ⟨?_, hno⟩
      intro habove
      have hle := habove.length_le
      omega
    obtain ⟨q, hq⟩ := hbelow
    obtain ⟨hne, _⟩ := putSteps_plain key
    have hqne : q ≠ [] := by
      rintro rfl
      rw [List.append_nil] at hq
      exact hcrooked hq
    rw [← hq, atPath_append hne] at hw
    obtain ⟨x, hx, hunder⟩ := Option.bind_eq_some_iff.mp hw
    rw [← hput] at hx
    have hstill := hkept hfires hnew s' hstep t.file htarget x hx
    rw [hput, hstands] at hstill
    cases hstill
    obtain ⟨next, others, rfl⟩ := List.exists_cons_of_ne_nil hqne
    cases hunder

/-- A turn over another file that does not put into a file leaves it. -/
theorem step_elsewhere (hsources : sources.Nodup) (hstep : step sources s t = some s')
    {g : String} (hne : g ≠ t.file) (hg : g ∉ t.entry.targets sources t.file) :
    s'.document g = s.document g := by
  by_cases hfires : Fires t.entry sources t.file s
  · obtain ⟨v, hv, _⟩ := hfires.value
    have hacted := step_fires hsources hfires hv hstep
    rw [hacted.into.rest g hg, hacted.before, if_neg hne]
  · rw [step_idle hfires] at hstep
    cases hstep
    rfl

/-- Turns over other files that do not put into a file leave it. -/
theorem runs_elsewhere (hsources : sources.Nodup) {ts : List Turn} {g : String}
    (hruns : runs sources ts s = some s')
    (hts : ∀ t ∈ ts, g ≠ t.file ∧ g ∉ t.entry.targets sources t.file) :
    s'.document g = s.document g := by
  induction ts generalizing s with
  | nil =>
    cases hruns
    rfl
  | cons t ts ih =>
    obtain ⟨⟨hne, hg⟩, hrest⟩ := List.forall_mem_cons.mp hts
    rw [runs_cons] at hruns
    obtain ⟨s₁, hstep, hruns⟩ := Option.bind_eq_some_iff.mp hruns
    rw [ih hruns hrest, step_elsewhere hsources hstep hne hg]

/-- Where a replay is safe, and those of the beginnings of its list, every turn that acts has
somewhere to put its value. -/
theorem sound_of_safe {list : List Migration} {set : Documents}
    (h : ∀ n, Safe (list.take n) set) :
    Along set.sources (Sound set.sources) (turns set.files list) set := by
  intro done t rest hsplit s hs hfires v hv
  have hnodup := sources_nodup set
  obtain ⟨n, others, hupTo, hturns, hothers⟩ := turnsFrom_split set.nodup hsplit
  have hsafe := h (n + 1)
  obtain ⟨s'', hruns, hidle⟩ := hsafe.idle
  have hkept := hsafe.kept done t others hturns s hs
  have hfile : t.file ∈ set.files ∧ shapeOf t.file = t.entry.file := by
    have ht : t ∈ turnsFrom set.files [] list := by
      rw [show turnsFrom set.files [] list = done ++ t :: rest from hsplit]
      simp
    exact ⟨(mem_turnsFrom ht).2.2.2.1, (mem_turnsFrom ht).2.2.2.2⟩
  have hquiet : ∀ m ∈ t.upTo, ∀ g ∈ set.files, shapeOf g = m.file →
      ¬ Fires m set.sources g s'' := by
    intro m hm g hg hshape
    rw [hupTo] at hm
    obtain ⟨t', ht', rfl, rfl⟩ := turn_of_mem [] hm hg hshape
    exact hidle t' ht'
  rw [show turns set.files (list.take (n + 1)) = done ++ t :: others from hturns, runs_append,
    hs] at hruns
  change runs set.sources (t :: others) s = some s'' at hruns
  rw [runs_cons] at hruns
  obtain ⟨s', hstep, hrest⟩ := Option.bind_eq_some_iff.mp hruns
  have hacted := step_fires hnodup hfires hv hstep
  have hfilesOf : s.files = set.files := runs_files hnodup hs
  have hstuck : ∀ m g, Stuck m set.sources s''.files (s''.document g) ↔
      Stuck m set.sources s.files (s.document g) := by
    intro m g
    rw [runs_stuck hnodup hrest, hacted.stuck]
  have hdone' : runs set.sources (done ++ [t]) set = some s' := by
    rw [runs_append, hs]
    change runs set.sources [t] s = some s'
    rw [runs_cons, hstep]
    rfl
  have hts : turns set.files (list.take (n + 1)) = (done ++ [t]) ++ others := by
    rw [List.append_assoc]
    exact hturns
  refine ⟨hacted.reaches, ?_, fun g hg => hacted.way hg, ?_, ?_⟩
  · intro file key fromValue toValue hentry
    refine straight_of_kept hentry hfires hacted hkept hstep ?_
    have hsame : s''.document t.file = s'.document t.file := by
      refine runs_elsewhere hnodup hrest ?_
      intro t' ht'
      obtain ⟨hentry', hother⟩ := hothers t' ht'
      refine ⟨hother.symm, ?_⟩
      rw [hentry', hentry]
      exact fun hmem => hother (List.mem_singleton.mp hmem).symm
    have hself : t.entry ∈ t.upTo := by
      have ht : t ∈ turnsFrom set.files [] list := by
        rw [show turnsFrom set.files [] list = done ++ t :: rest from hsplit]
        simp
      exact (mem_turnsFrom ht).2.1
    have hnot := hquiet t.entry hself t.file hfile.1 hfile.2
    rw [fires_iff, hstuck, hsame] at hnot
    by_contra hmatch
    exact hnot ⟨(fires_iff.mp hfires).1, by simpa using hmatch⟩
  · intro hnew g hg w hw
    have hstill := hkept hfires hnew s' hstep g hg w hw
    rw [hacted.put_at hg] at hstill
    exact (Option.some.inj hstill).symm
  · intro g hg m hm hshape hstirs
    by_contra hfree
    have hmem : g ∈ set.files := by
      refine target_mem hfile.1 ?_ hg
      rw [← hfilesOf]
      exact hacted.reaches
    have hstands := runs_persist hnodup hsafe.kept hg hts hdone' hothers hrest (hacted.put_at hg)
    obtain ⟨hne, _⟩ := @putAt_plain t.entry set.sources t.file (List.ne_nil_of_mem hg)
    have hmatch := matches_at m hne hstands (not_apart_of_stirs hstirs)
    rw [hstirs] at hmatch
    exact hquiet m hm g hmem hshape (fires_iff.mpr ⟨fun hstuck' => hfree ((hstuck m g).mp hstuck'),
      hmatch⟩)

end Necessary

section Claim

/-- A replay of a list, and of each of its beginnings, is safe exactly if every turn that acts
has somewhere to put its value: the file it moves to is there, the way leads through tables, the
place is free, and no entry up to it acts on what it puts. -/
theorem safe_iff (list : List Migration) (set : Documents) :
    (∀ n, Safe (list.take n) set) ↔
      Along set.sources (Sound set.sources) (turns set.files list) set := by
  constructor
  · exact sound_of_safe
  · intro h n
    exact safe_of_sound (along_take h n)

/-- A set whose source file states a string where the list that ships puts a table. -/
def stringInTheWay : Documents where
  files := ["idp_entra.toml", "sync.toml"]
  document file :=
    if file = "sync.toml" then [("sam_source", .string "upn")]
    else [("provider_config", .string "entra")]
  nodup := by decide

/-- The list that ships uses no key again, and yet its replay panics on a set with a string where
it puts a table. -/
theorem ships_unsafe : ratchet [] migrations = true ∧ replay stringInTheWay = none ∧
    ¬ Safe migrations stringInTheWay := by
  have hnone : replay stringInTheWay = none := by
    rw [← Option.isNone_iff_eq_none]
    decide
  refine ⟨by decide, hnone, ?_⟩
  intro hsafe
  have hends := hsafe.ends
  change (replay stringInTheWay).isSome = true at hends
  rw [hnone] at hends
  cases hends

end Claim

end Kerbridge.ConfigMigrations

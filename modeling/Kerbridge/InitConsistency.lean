import Kerbridge.ConfigInit

/-!
# When the config set that is written is consistent

Every refusal comes before the first write. What is written is a whole set whose list
of sources is that of its files; and every answer is in it, unless two answers are
about one option, or one is of another type than the option.
-/

namespace Kerbridge.Kbconfig

open UnicodeText Decisions ConfigSet Fallible
open SyncDirectory (Provider)

variable {toml : Toml}

section Replies

variable [UnicodeTables] {body : String} {required : List String}

/-- What the answers about a file come to, answer by answer. -/
structure RepliesOf (body : String) (required : List String) (l : List Answer)
    (r : Replies toml) : Prop where
  answered : ∀ path v, (path, v) ∈ r.answered ↔
    ∃ a ∈ l, a.text ≠ "" ∧ a.path = path ∧ a.value toml (shownFor toml body a.path) = .ok v
  missing : ∀ name, name ∈ r.missing ↔
    ∃ a ∈ l, a.text = "" ∧ a.path ∈ required ∧ a.named = name
  defaulted : ∀ name, name ∈ r.defaulted ↔
    ∃ a ∈ l, a.text = "" ∧ a.path ∉ required ∧ a.named = name
  values : ∀ a ∈ l, a.text ≠ "" → ∃ v, a.value toml (shownFor toml body a.path) = .ok v

/-- The answers about a file are read as what each of them says. -/
theorem repliesOf {l : List Answer} {r : Replies toml} (h : replies body required l = .ok r) :
    RepliesOf body required l r := by
  induction l generalizing r with
  | nil =>
    cases h
    constructor
    · simp
    · simp
    · simp
    · simp
  | cons a l ih =>
    unfold replies at h
    by_cases hempty : a.text = ""
    · rw [if_pos hempty] at h
      obtain ⟨rest, hrest, hr⟩ := map_ok_iff.mp h
      obtain ⟨hanswered, hmissing, hdefaulted, hvalues⟩ := ih hrest
      by_cases hrequired : a.path ∈ required
      · rw [if_pos (by simpa using hrequired)] at hr
        subst hr
        constructor
        · intro path v
          simp [hanswered, hempty]
        · intro name
          simp only [List.mem_cons, exists_eq_or_imp, hempty, hrequired, true_and, ← hmissing]
          rw [@eq_comm _ name]
        · intro name
          simp [hdefaulted, hrequired]
        · simpa [hempty] using hvalues
      · rw [if_neg (by simpa using hrequired)] at hr
        subst hr
        constructor
        · intro path v
          simp [hanswered, hempty]
        · intro name
          simp [hmissing, hrequired]
        · intro name
          simp only [List.mem_cons, exists_eq_or_imp, hempty, hrequired, not_false_eq_true, true_and,
            ← hdefaulted]
          rw [@eq_comm _ name]
        · simpa [hempty] using hvalues
    · rw [if_neg hempty] at h
      obtain ⟨v, hv, h⟩ := bind_ok_iff.mp h
      obtain ⟨rest, hrest, hr⟩ := bind_ok_iff.mp h
      cases hr
      obtain ⟨hanswered, hmissing, hdefaulted, hvalues⟩ := ih hrest
      constructor
      · intro path w
        simp only [List.mem_cons, hanswered, exists_eq_or_imp, Prod.mk.injEq]
        constructor
        · rintro (⟨rfl, rfl⟩ | hmem)
          · exact Or.inl ⟨hempty, rfl, hv⟩
          · exact Or.inr hmem
        · rintro (⟨_, rfl, hw⟩ | hmem)
          · rw [hv] at hw
            cases hw
            exact Or.inl ⟨rfl, rfl⟩
          · exact Or.inr hmem
      · intro name
        simp [hmissing, hempty]
      · intro name
        simp [hdefaulted, hempty]
      · rintro b hb hne
        rcases List.mem_cons.mp hb with rfl | hb
        · exact ⟨v, hv⟩
        · exact hvalues b hb hne

/-- Answers that all stand for values are all read. -/
theorem replies_exists {l : List Answer}
    (h : ∀ a ∈ l, a.text ≠ "" → ∃ v, a.value toml (shownFor toml body a.path) = .ok v) :
    ∃ r : Replies toml, replies body required l = .ok r := by
  induction l with
  | nil => exact ⟨_, rfl⟩
  | cons a l ih =>
    obtain ⟨hfirst, hrest⟩ := List.forall_mem_cons.mp h
    obtain ⟨r, hr⟩ := ih hrest
    unfold replies
    by_cases hempty : a.text = ""
    · rw [if_pos hempty, hr]
      exact ⟨_, rfl⟩
    · obtain ⟨v, hv⟩ := hfirst hempty
      rw [if_neg hempty, hv, hr]
      exact ⟨_, rfl⟩

end Replies

section Plan

/-- A file of a name states values under paths that its template names, first among what is
put into it. -/
def Decides (files : List (File toml)) (name : String) (decided : List (String × toml.Value)) :
    Prop :=
  ∃ f ∈ files, f.name = name ∧ f.decided = decided ∧
    ∀ d ∈ decided, d.1 ∈ optionPaths toml f.body

/-- More files keep what is decided. -/
theorem Decides.append {files : List (File toml)} {name : String}
    {decided : List (String × toml.Value)} (h : Decides files name decided)
    (more : List (File toml)) : Decides (files ++ more) name decided := by
  obtain ⟨f, hf, hrest⟩ := h
  exact ⟨f, List.mem_append_left _ hf, hrest⟩

/-- The list of the sources is put into the main file, and no name changes. -/
theorem decideSources_ok {listed : toml.Value} {files files' : List (File toml)}
    (h : decideSources listed files = .ok files') :
    files'.map (fun f => f.name) = files.map (fun f => f.name) ∧
      ∃ f ∈ files, f.name = mainFile ∧
        { f with decided := f.decided ++ [("sources", listed)] } ∈ files' := by
  induction files generalizing files' with
  | nil => cases h
  | cons f rest ih =>
    unfold decideSources at h
    by_cases hmain : f.name = mainFile
    · rw [if_pos hmain] at h
      cases h
      exact ⟨rfl, f, List.mem_cons_self, hmain, List.mem_cons_self⟩
    · rw [if_neg hmain] at h
      obtain ⟨rest', hrest, rfl⟩ := map_ok_iff.mp h
      obtain ⟨hnames, g, hg, hname, hdecided⟩ := ih hrest
      refine ⟨?_, g, List.mem_cons_of_mem _ hg, hname, List.mem_cons_of_mem _ hdecided⟩
      rw [List.map_cons, List.map_cons, hnames]

/-- What the files of a plan are: those of every set, and one for each source. -/
structure Planned (srcs : List Source) (files : List (File toml)) : Prop where
  names : files.map (fun f => f.name) = baseFiles ++ srcs.map fun s => sourceFile s.name
  distinct : (files.map fun f => f.name).Nodup
  listed : Decides files mainFile
    [("sources", toml.array (srcs.map fun s => toml.string s.name))]
  sources : ∀ s ∈ srcs, Decides files (sourceFile s.name)
    [("name", toml.string s.name), ("provider", toml.string (providerName s.provider))]

/-- A plan has the files of a set, each once. -/
theorem planned {v : Version toml} {srcs : List Source} {files : List (File toml)}
    (h : plan v srcs = .ok files) : Planned srcs files := by
  unfold plan at h
  obtain ⟨templates, htemplates, h⟩ := bind_ok_iff.mp h
  obtain ⟨start, hstart, h⟩ := bind_ok_iff.mp h
  obtain ⟨hnames, f, hf, hname, hdecided⟩ := decideSources_ok hstart
  obtain ⟨t, ht, rfl⟩ := List.mem_map.mp hf
  have hbase : start.map (fun f => f.name) = baseFiles := by
    rw [hnames, List.map_map, ← v.baseNames templates htemplates]
    rfl
  -- Each source adds its own file at the end, so that what came before stays.
  obtain ⟨hnames, hdistinct, hlisted, hsources⟩ := foldlM_ok_induction (fun done files =>
    (files.map (fun f => f.name) = baseFiles ++ done.map fun s => sourceFile s.name) ∧
    (files.map fun f => f.name).Nodup ∧
    Decides files mainFile [("sources", toml.array (srcs.map fun s => toml.string s.name))] ∧
    ∀ s ∈ done, Decides files (sourceFile s.name)
      [("name", toml.string s.name), ("provider", toml.string (providerName s.provider))]) h
    ⟨by simp [hbase], by rw [hbase]; decide, ⟨_, hdecided, hname, rfl, by
      intro d hd
      rw [List.mem_singleton.mp hd]
      exact v.listsSources templates htemplates t ht hname⟩, by simp⟩ (by
    rintro done s before after ⟨hnames, hdistinct, hlisted, hsources⟩ hadd
    unfold addSource at hadd
    rw [refuse_ok_iff] at hadd
    obtain ⟨hnew, hadd⟩ := hadd
    obtain ⟨g, hg, rfl⟩ := map_ok_iff.mp hadd
    unfold Source.file at hg
    obtain ⟨t, ht, rfl⟩ := map_ok_iff.mp hg
    have hfile := v.sourceNames s.name s.provider t ht
    have hpaths := v.namesSource s.name s.provider t ht
    refine ⟨?_, ?_, hlisted.append _, ?_⟩
    · rw [List.map_append, hnames, List.map_append, List.append_assoc]
      simp [hfile]
    · rw [List.map_append, List.nodup_append]
      refine ⟨hdistinct, by simp, ?_⟩
      rintro name hmem other hother rfl
      simp only [List.map_cons, List.map_nil, List.mem_singleton] at hother
      obtain ⟨f, hf, hsame⟩ := List.mem_map.mp hmem
      refine hnew (List.any_eq_true.mpr ⟨f, hf, ?_⟩)
      rw [beq_iff_eq, hsame, hother, hfile]
    · intro s' hs'
      rcases List.mem_append.mp hs' with hs' | hs'
      · exact (hsources s' hs').append _
      · rw [List.mem_singleton.mp hs']
        refine ⟨_, List.mem_append_right _ (List.mem_singleton_self _), hfile, rfl, ?_⟩
        simpa using hpaths)
  exact ⟨hnames, hdistinct, hlisted, hsources⟩

end Plan

section Consistent

variable [UnicodeTables] {v : Version toml} {makes : Bool} {dir : String} {sources set : List String}
  {held held' : Directory} {srcs : List Source} {files : List (File toml)} {answers : List Answer}

/-- A file states one value of an option, and no other. -/
def States (toml : Toml) (held : Directory) (name path : String) (v : toml.Value) : Prop :=
  ∃ body doc, held name = some body ∧ toml.document body = some doc ∧
    ∀ w, (path, w) ∈ doc ↔ w = v

/-- What the arguments say: the sources, the files they make, and the answers. -/
structure Prepared (v : Version toml) (sources set : List String) (srcs : List Source)
    (files : List (File toml)) (answers : List Answer) : Prop where
  named : sources.mapM Source.parse = .ok srcs
  laid : plan v srcs = .ok files
  split : set.mapM Answer.parse = .ok answers

/-- A required option is answered empty. -/
def Unanswered (v : Version toml) (sources set : List String) : Prop :=
  ∃ srcs files answers, Prepared v sources set srcs files answers ∧
    ∃ f ∈ files, ∃ required, f.required = .ok required ∧
      ∃ a ∈ answers, a.file = f.name ∧ a.text = "" ∧ a.path ∈ required

/-- A file of the set is there already. -/
def Occupied (v : Version toml) (sources set : List String) (held : Directory) : Prop :=
  ∃ srcs files answers, Prepared v sources set srcs files answers ∧
    ∃ f ∈ files, (held f.name).isSome = true

/-- An answer stands for a value in a file that names its option. -/
structure Stands (files : List (File toml)) (a : Answer) (f : File toml) (v : toml.Value) :
    Prop where
  file : f ∈ files
  name : f.name = a.file
  path : a.path ∈ optionPaths toml f.body
  text : a.text ≠ ""
  value : a.value toml (shownFor toml f.body a.path) = .ok v

/-- A line of the report that begins with an answer's name. -/
def Reported (a : Answer) (report : List String) : Prop := ∃ rest, a.named ++ ": " ++ rest ∈ report

/-- A whole set was written. -/
structure Written (srcs : List Source) (files : List (File toml)) (answers : List Answer)
    (held held' : Directory) (report : List String) : Prop where
  /-- Every file of the set is written, and no other one. -/
  every : ∀ f ∈ files, (held' f.name).isSome = true
  others : ∀ name, (∀ f ∈ files, f.name ≠ name) → held' name = held name
  /-- The files are those of every set, and one for each source. -/
  names : files.map (fun f => f.name) = baseFiles ++ srcs.map fun s => sourceFile s.name
  /-- The list of the sources is theirs, whatever was answered. -/
  listed : States toml held' mainFile "sources"
    (toml.array (srcs.map fun s => toml.string s.name))
  /-- Each source's file has its name and its adapter. -/
  sources : ∀ s ∈ srcs, States toml held' (sourceFile s.name) "name" (toml.string s.name) ∧
    States toml held' (sourceFile s.name) "provider" (toml.string (providerName s.provider))
  /-- An answer about an option is stated, in the type that the template shows. -/
  answered : ∀ a ∈ answers, a.text ≠ "" → ∀ f ∈ files, f.name = a.file →
    a.path ∈ optionPaths toml f.body → ∃ v, Stands files a f v ∧
      States toml held' f.name a.path v ∧
      ∀ s, shownFor toml f.body a.path = some s → toml.typeStr v = toml.typeStr s
  /-- An answer that is not stated is reported. -/
  reported : ∀ a ∈ answers,
    (∃ f v, Stands files a f v ∧ States toml held' f.name a.path v) ∨ Reported a report

/-- **A consistent set or nothing**: where the command refuses, or a required option is answered
empty, or a file of the set is there, nothing is written; otherwise a whole set is. -/
structure Consistent (v : Version toml) (makes : Bool) (dir : String) (sources set : List String)
    (held : Directory) : Prop where
  untouched : (∃ why, (init v makes dir sources set false held).2 = .error why) ∨
      Unanswered v sources set ∨ Occupied v sources set held →
    (init v makes dir sources set false held).1 = held
  written : ¬((∃ why, (init v makes dir sources set false held).2 = .error why) ∨
      Unanswered v sources set ∨ Occupied v sources set held) →
    ∃ srcs files answers report, Prepared v sources set srcs files answers ∧
      (init v makes dir sources set false held).2 = .ok report ∧
      Written srcs files answers held (init v makes dir sources set false held).1 report

/-- The arguments are accepted in a directory. -/
structure Accepted (v : Version toml) (makes : Bool) (sources set : List String) (held : Directory)
    (srcs : List Source) (files : List (File toml)) (answers : List Answer) : Prop extends
    Prepared v sources set srcs files answers where
  /-- No answer is about what the command decides. -/
  free : ∀ a ∈ answers, ∀ f ∈ files, f.name = a.file → ∀ d ∈ f.decided, d.1 ≠ a.path
  /-- The schemas say what is required, and no such option is answered empty. -/
  required : ∀ f ∈ files, ∃ required, f.required = .ok required ∧
    ∀ a ∈ answers, a.file = f.name → a.text = "" → a.path ∉ required
  /-- Every other answer stands for a value. -/
  values : ∀ f ∈ files, ∀ a ∈ answers, a.file = f.name → a.text ≠ "" →
    ∃ v, a.value toml (shownFor toml f.body a.path) = .ok v
  directory : makes = true
  vacant : ∀ f ∈ files, held f.name = none

/-- Each answer about an option has the option's type, and two answers about one option stand for
one value. -/
def Settled (files : List (File toml)) (answers : List Answer) : Prop :=
  ∀ a ∈ answers, ∀ f v, Stands files a f v →
    (∀ s, shownFor toml f.body a.path = some s → toml.typeStr v = toml.typeStr s) ∧
    ∀ b ∈ answers, b.path = a.path → ∀ w, Stands files b f w → w = v

/-- The arguments say one thing. -/
theorem Prepared.unique {srcs' : List Source} {files' : List (File toml)} {answers' : List Answer}
    (h : Prepared v sources set srcs files answers)
    (h' : Prepared v sources set srcs' files' answers') :
    srcs' = srcs ∧ files' = files ∧ answers' = answers := by
  have hsrcs := h'.named
  rw [h.named] at hsrcs
  cases hsrcs
  have hfiles := h'.laid
  rw [h.laid] at hfiles
  cases hfiles
  have hanswers := h'.split
  rw [h.split] at hanswers
  cases hanswers
  exact ⟨rfl, rfl, rfl⟩

/-- A draft is made of a file and what the answers about it come to. -/
theorem draft_ok {f : File toml} {d : Draft toml} (h : draft answers f = .ok d) :
    d.file = f ∧ ∃ required, f.required = .ok required ∧
      RepliesOf f.body required (answers.filter fun a => a.file == f.name) d.replies := by
  unfold draft at h
  cases hrequired : f.required with
  | error why =>
    rw [hrequired] at h
    cases h
  | ok required =>
    rw [hrequired] at h
    obtain ⟨r, hr, rfl⟩ := map_ok_iff.mp h
    exact ⟨rfl, required, rfl, repliesOf hr⟩

/-- What was drafted comes from prepared arguments, none of which overrules the command. -/
theorem drafted_ok {drafts : List (Draft toml)}
    (h : drafted v sources set = .ok (answers, drafts)) :
    ∃ srcs files, Prepared v sources set srcs files answers ∧ overruled files answers = none ∧
      List.Forall₂ (fun f d => draft answers f = .ok d) files drafts := by
  unfold drafted at h
  obtain ⟨srcs, hsrcs, h⟩ := bind_ok_iff.mp h
  obtain ⟨files, hfiles, h⟩ := bind_ok_iff.mp h
  obtain ⟨answers', hanswers, h⟩ := bind_ok_iff.mp h
  cases hoverruled : overruled files answers' with
  | some a =>
    rw [hoverruled] at h
    cases h
  | none =>
    rw [hoverruled] at h
    obtain ⟨drafts', hdrafts, heq⟩ := map_ok_iff.mp h
    cases heq
    exact ⟨srcs, files, ⟨hsrcs, hfiles, hanswers⟩, hoverruled, mapM_ok_iff.mp hdrafts⟩

omit [UnicodeTables] in
/-- No answer overrules the command exactly when none names what it decides. -/
theorem overruled_none : overruled files answers = none ↔
    ∀ a ∈ answers, ∀ f ∈ files, f.name = a.file → ∀ d ∈ f.decided, d.1 ≠ a.path := by
  unfold overruled
  simp only [List.find?_eq_none, List.any_eq_true, List.mem_filter, beq_iff_eq, not_exists, not_and]
  constructor
  · intro h a ha f hf hname d hd
    exact h a ha f ⟨hf, hname⟩ d hd
  · intro h a ha f hf d hd
    exact h a ha f hf.1 hf.2 d hd

/-- Accepted arguments are drafted. -/
theorem drafted_of_accepted (h : Accepted v makes sources set held srcs files answers) :
    ∃ drafts, drafted v sources set = .ok (answers, drafts) := by
  have hdrafts : ∃ drafts, files.mapM (draft answers) = .ok drafts := by
    apply mapM_exists_iff.mpr
    intro f hf
    obtain ⟨required, hrequired, _⟩ := h.required f hf
    obtain ⟨r, hr⟩ := @replies_exists _ _ f.body required
      (answers.filter fun a => a.file == f.name) (by
        intro a ha hne
        obtain ⟨ha, hfile⟩ := List.mem_filter.mp ha
        exact h.values f hf a ha (by simpa using hfile) hne)
    refine ⟨⟨f, r⟩, ?_⟩
    unfold draft
    rw [hrequired]
    dsimp only
    rw [hr]
    rfl
  obtain ⟨drafts, hdrafts⟩ := hdrafts
  refine ⟨drafts, ?_⟩
  unfold drafted
  rw [h.named, ok_bind, h.laid, ok_bind, h.split, ok_bind, overruled_none.mpr h.free]
  dsimp only
  rw [hdrafts]
  rfl

omit [UnicodeTables] in
/-- Files written one after another: each holds what was written to it, and others what they
held. -/
theorem foldl_written (written : List (String × String)) (held : Directory) :
    (∀ name ∉ written.map Prod.fst,
      written.foldl (fun (held : Directory) file => Function.update held file.1 (some file.2)) held name =
        held name) ∧
    ((written.map Prod.fst).Nodup → ∀ file ∈ written,
      written.foldl (fun (held : Directory) file => Function.update held file.1 (some file.2)) held file.1 =
        some file.2) := by
  induction written generalizing held with
  | nil => simp
  | cons first rest ih =>
    obtain ⟨hother, hheld⟩ := ih (Function.update held first.1 (some first.2))
    constructor
    · intro name hname
      rw [List.map_cons, List.mem_cons, not_or] at hname
      rw [List.foldl_cons, hother name hname.2, Function.update_of_ne hname.1]
    · intro hdistinct file hfile
      rw [List.map_cons, List.nodup_cons] at hdistinct
      rw [List.foldl_cons]
      rcases List.mem_cons.mp hfile with rfl | hfile
      · rw [hother _ hdistinct.1, Function.update_self]
      · exact hheld hdistinct.2 file hfile

/-- The drafts of some files, and what a directory holds once they are written. -/
structure Landed (files : List (File toml)) (answers : List Answer) (drafts : List (Draft toml))
    (held held' : Directory) : Prop where
  each : ∀ f ∈ files, ∃ d ∈ drafts, draft answers f = .ok d
  only : ∀ d ∈ drafts, ∃ f ∈ files, draft answers f = .ok d
  /-- A file holds the body of its draft, which states what the template's lines state. -/
  holds : ∀ d ∈ drafts, held' d.file.name = some d.body ∧
    toml.document d.body = some (statements toml d.file.body d.decisions)
  others : ∀ name, (∀ f ∈ files, f.name ≠ name) → held' name = held name

/-- The first decision about an option that a file names is what the file states. -/
theorem Landed.states {drafts : List (Draft toml)} (h : Landed files answers drafts held held')
    {d : Draft toml} (hd : d ∈ drafts) {path : String} {value : toml.Value}
    (hpath : path ∈ optionPaths toml d.file.body)
    (hfirst : (d.decisions.find? fun e => e.1 == path).map Prod.snd = some value) :
    States toml held' d.file.name path value := by
  obtain ⟨hheld, hdocument⟩ := h.holds d hd
  refine ⟨d.body, _, hheld, hdocument, ?_⟩
  intro w
  rw [mem_statements, hfirst]
  constructor
  · rintro ⟨_, hw⟩
    exact (Option.some.inj hw).symm
  · rintro rfl
    exact ⟨hpath, rfl⟩

/-- What the command decides in a file, the file states. -/
theorem Landed.decided {drafts : List (Draft toml)} (h : Landed files answers drafts held held')
    {name : String} {decided : List (String × toml.Value)} (hdecides : Decides files name decided)
    {path : String} {value : toml.Value}
    (hfirst : (decided.find? fun e => e.1 == path) = some (path, value)) :
    States toml held' name path value := by
  obtain ⟨f, hf, hname, hdecided, hpaths⟩ := hdecides
  obtain ⟨d, hd, hdraft⟩ := h.each f hf
  obtain ⟨hfile, _⟩ := draft_ok hdraft
  have hpath : path ∈ optionPaths toml d.file.body := by
    rw [hfile]
    exact hpaths _ (List.mem_of_find?_eq_some hfirst)
  have hdrafted : (d.decisions.find? fun e => e.1 == path).map Prod.snd = some value := by
    rw [Draft.decisions, hfile, hdecided, List.find?_append, hfirst]
    rfl
  have hstates := h.states hd hpath hdrafted
  rwa [hfile, hname] at hstates

/-- What answers stand for is stated, when the answers about one option stand for one value. -/
theorem Landed.answered {drafts : List (Draft toml)} (h : Landed files answers drafts held held')
    (hfree : ∀ a ∈ answers, ∀ f ∈ files, f.name = a.file → ∀ d ∈ f.decided, d.1 ≠ a.path)
    {a : Answer} (ha : a ∈ answers) {f : File toml} {value : toml.Value}
    (hstands : Stands files a f value)
    (hsame : ∀ b ∈ answers, b.path = a.path → ∀ w, Stands files b f w → w = value) :
    States toml held' f.name a.path value := by
  obtain ⟨d, hd, hdraft⟩ := h.each f hstands.file
  obtain ⟨rfl, required, _, hreplies⟩ := draft_ok hdraft
  refine h.states hd hstands.path ?_
  have hdecided : (d.file.decided.find? fun e => e.1 == a.path) = none := by
    rw [List.find?_eq_none]
    intro e he heq
    exact hfree a ha d.file hstands.file hstands.name e he (by simpa using heq)
  have hmem : (a.path, value) ∈ d.replies.answered := by
    refine (hreplies.answered _ _).mpr ⟨a, ?_, hstands.text, rfl, hstands.value⟩
    exact List.mem_filter.mpr ⟨ha, by simp [hstands.name]⟩
  have hsome : (d.replies.answered.find? fun e => e.1 == a.path).isSome :=
    List.find?_isSome.mpr ⟨_, hmem, beq_self_eq_true a.path⟩
  obtain ⟨⟨path, w⟩, hfound⟩ := Option.isSome_iff_exists.mp hsome
  have hpath : path = a.path := by
    have hmatch := List.find?_some hfound
    simpa using hmatch
  subst hpath
  obtain ⟨b, hb, htext, hsamePath, hvalue⟩ :=
    (hreplies.answered _ _).mp (List.mem_of_find?_eq_some hfound)
  obtain ⟨hb, hfile⟩ := List.mem_filter.mp hb
  have hw := hsame b hb hsamePath w ⟨hstands.file, (by simpa using hfile : b.file = d.file.name).symm,
    by rw [hsamePath]; exact hstands.path, htext, hvalue⟩
  rw [Draft.decisions, List.find?_append, hdecided, Option.none_or, hfound, hw]
  rfl

omit [UnicodeTables] in
/-- An answer about no file of the set is reported. -/
theorem reported_unplaceable {drafts : List (Draft toml)} {a : Answer} (ha : a ∈ answers)
    (h : ∀ d ∈ drafts, d.file.name ≠ a.file) : Reported a (report drafts answers) := by
  refine ⟨"this set writes no " ++ a.file ++ " -- your answer was not written", ?_⟩
  unfold report
  refine List.mem_append_right _ (List.mem_map.mpr ⟨_, List.mem_append_left _
    (List.mem_map.mpr ⟨a, List.mem_filter.mpr ⟨ha, ?_⟩, rfl⟩), ?_⟩)
  · simpa using h
  · simp only [String.append_assoc]
    rfl

omit [UnicodeTables] in
/-- An empty answer about an option that is not required is reported. -/
theorem reported_defaulted {drafts : List (Draft toml)} {d : Draft toml} {a : Answer}
    (hd : d ∈ drafts) (h : a.named ∈ d.replies.defaulted) :
    Reported a (report drafts answers) := by
  refine ⟨"answered empty and not required -- left at its default", ?_⟩
  unfold report
  refine List.mem_append_left _ (List.mem_map.mpr ⟨a.named, List.mem_flatMap.mpr ⟨d, hd, h⟩, ?_⟩)
  rw [String.append_assoc]
  rfl

omit [UnicodeTables] in
/-- An answer about no option of its file is reported. -/
theorem reported_missed {drafts : List (Draft toml)} {d : Draft toml} {a : Answer}
    (hd : d ∈ drafts) (hfile : d.file.name = a.file)
    (h : a.path ∈ (apply toml d.file.body d.decisions).2) :
    Reported a (report drafts answers) := by
  refine ⟨d.file.name ++ " has no such option in this version -- your answer was not written", ?_⟩
  unfold report
  refine List.mem_append_right _ (List.mem_map.mpr ⟨_, List.mem_append_right _
    (List.mem_flatMap.mpr ⟨d, hd, List.mem_map.mpr ⟨a.path, h, rfl⟩⟩), ?_⟩)
  rw [hfile]
  simp only [Answer.named, String.append_assoc]
  rfl

/-- What was written to the files of accepted arguments is a whole set exactly when the answers
are settled. -/
theorem written_iff (hplan : Planned srcs files)
    (haccepted : Accepted v makes sources set held srcs files answers)
    {drafts : List (Draft toml)} (h : Landed files answers drafts held held') :
    Written srcs files answers held held' (report drafts answers) ↔ Settled files answers := by
  constructor
  · intro hwritten a ha f value hstands
    obtain ⟨value', hstands', hstates, htype⟩ := hwritten.answered a ha hstands.text f hstands.file
      hstands.name hstands.path
    have hvalue := hstands'.value
    rw [hstands.value] at hvalue
    cases hvalue
    refine ⟨htype, ?_⟩
    intro b hb hpath w hw
    obtain ⟨w', hw', hstatesW, _⟩ := hwritten.answered b hb hw.text f hw.file hw.name hw.path
    have hsame := hw'.value
    rw [hw.value] at hsame
    cases hsame
    rw [hpath] at hstatesW
    obtain ⟨body, doc, hheld, hdoc, hall⟩ := hstates
    obtain ⟨body', doc', hheld', hdoc', hall'⟩ := hstatesW
    rw [hheld] at hheld'
    cases hheld'
    rw [hdoc] at hdoc'
    cases hdoc'
    exact (hall w).mp ((hall' w).mpr rfl)
  · intro hsettled
    have hanswered : ∀ a ∈ answers, ∀ f value, Stands files a f value →
        States toml held' f.name a.path value := fun a ha f value hstands =>
      h.answered haccepted.free ha hstands (hsettled a ha f value hstands).2
    constructor
    · intro f hf
      obtain ⟨d, hd, hdraft⟩ := h.each f hf
      rw [← (draft_ok hdraft).1, (h.holds d hd).1]
      rfl
    · exact h.others
    · exact hplan.names
    · exact h.decided hplan.listed (by simp)
    · intro s hs
      exact ⟨h.decided (hplan.sources s hs) (by simp), h.decided (hplan.sources s hs) (by simp)⟩
    · intro a ha htext f hf hname hpath
      obtain ⟨value, hvalue⟩ := haccepted.values f hf a ha hname.symm htext
      have hstands : Stands files a f value := ⟨hf, hname, hpath, htext, hvalue⟩
      exact ⟨value, hstands, hanswered a ha f value hstands, (hsettled a ha f value hstands).1⟩
    · intro a ha
      by_cases hplace : ∃ f ∈ files, f.name = a.file
      · obtain ⟨f, hf, hname⟩ := hplace
        obtain ⟨d, hd, hdraft⟩ := h.each f hf
        obtain ⟨rfl, required, hrequired, hreplies⟩ := draft_ok hdraft
        have hmine : a ∈ answers.filter fun a => a.file == d.file.name :=
          List.mem_filter.mpr ⟨ha, by simp [hname]⟩
        by_cases htext : a.text = ""
        · obtain ⟨required', hrequired', hnot⟩ := haccepted.required d.file hf
          rw [hrequired] at hrequired'
          cases hrequired'
          exact Or.inr (reported_defaulted hd
            ((hreplies.defaulted _).mpr ⟨a, hmine, htext, hnot a ha hname.symm htext, rfl⟩))
        · obtain ⟨value, hvalue⟩ := hreplies.values a hmine htext
          by_cases hpath : a.path ∈ optionPaths toml d.file.body
          · have hstands : Stands files a d.file value := ⟨hf, hname, hpath, htext, hvalue⟩
            exact Or.inl ⟨d.file, value, hstands, hanswered a ha d.file value hstands⟩
          · refine Or.inr (reported_missed hd hname (mem_missed.mpr ⟨⟨value, ?_⟩, hpath⟩))
            exact List.mem_append_right _
              ((hreplies.answered _ _).mpr ⟨a, hmine, htext, rfl, hvalue⟩)
      · refine Or.inr (reported_unplaceable ha ?_)
        intro d hd hname
        obtain ⟨f, hf, hdraft⟩ := h.only d hd
        exact hplace ⟨f, hf, by rw [← (draft_ok hdraft).1]; exact hname⟩

/-- A file name of a plan is that of one file. -/
theorem mem_names {drafts : List (Draft toml)}
    (h : List.Forall₂ (fun f d => draft answers f = .ok d) files drafts) :
    drafts.map (fun d => d.file.name) = files.map fun f => f.name := by
  induction h with
  | nil => rfl
  | cons hdraft _ ih => rw [List.map_cons, List.map_cons, (draft_ok hdraft).1, ih]

/-- Each file of a plan has its draft, and each draft its file. -/
theorem mem_drafts {drafts : List (Draft toml)}
    (h : List.Forall₂ (fun f d => draft answers f = .ok d) files drafts) :
    (∀ f ∈ files, ∃ d ∈ drafts, draft answers f = .ok d) ∧
      ∀ d ∈ drafts, ∃ f ∈ files, draft answers f = .ok d := by
  induction h with
  | nil => simp
  | cons hdraft _ ih =>
    obtain ⟨hleft, hright⟩ := ih
    constructor
    · refine List.forall_mem_cons.mpr ⟨⟨_, List.mem_cons_self, hdraft⟩, ?_⟩
      intro f hf
      obtain ⟨d, hd, hfd⟩ := hleft f hf
      exact ⟨d, List.mem_cons_of_mem _ hd, hfd⟩
    · refine List.forall_mem_cons.mpr ⟨⟨_, List.mem_cons_self, hdraft⟩, ?_⟩
      intro d hd
      obtain ⟨f, hf, hfd⟩ := hright d hd
      exact ⟨f, List.mem_cons_of_mem _ hf, hfd⟩

/-- A required option that is missing was answered empty. -/
theorem unanswered_of_missing (hprepared : Prepared v sources set srcs files answers)
    {drafts : List (Draft toml)}
    (hdrafts : List.Forall₂ (fun f d => draft answers f = .ok d) files drafts)
    (h : (drafts.flatMap fun d => d.replies.missing) ≠ []) : Unanswered v sources set := by
  obtain ⟨name, hname⟩ := List.exists_mem_of_ne_nil _ h
  obtain ⟨d, hd, hname⟩ := List.mem_flatMap.mp hname
  obtain ⟨f, hf, hdraft⟩ := (mem_drafts hdrafts).2 d hd
  obtain ⟨_, required, hrequired, hreplies⟩ := draft_ok hdraft
  obtain ⟨a, ha, htext, hpath, _⟩ := (hreplies.missing name).mp hname
  obtain ⟨ha, hfile⟩ := List.mem_filter.mp ha
  exact ⟨srcs, files, answers, hprepared, f, hf, required, hrequired, a, ha, by simpa using hfile,
    htext, hpath⟩

/-- Arguments that were drafted with nothing missing are accepted in a directory that holds none
of the files. -/
theorem accepted_of_drafts (hprepared : Prepared v sources set srcs files answers)
    (hoverruled : overruled files answers = none) {drafts : List (Draft toml)}
    (hdrafts : List.Forall₂ (fun f d => draft answers f = .ok d) files drafts)
    (hmissing : (drafts.flatMap fun d => d.replies.missing) = []) (hmakes : makes = true)
    (hvacant : ∀ f ∈ files, held f.name = none) :
    Accepted v makes sources set held srcs files answers := by
  refine ⟨hprepared, overruled_none.mp hoverruled, ?_, ?_, hmakes, hvacant⟩
  · intro f hf
    obtain ⟨d, hd, hdraft⟩ := (mem_drafts hdrafts).1 f hf
    obtain ⟨_, required, hrequired, hreplies⟩ := draft_ok hdraft
    refine ⟨required, hrequired, ?_⟩
    intro a ha hfile htext hpath
    have hmem : a.named ∈ drafts.flatMap fun d => d.replies.missing :=
      List.mem_flatMap.mpr ⟨d, hd, (hreplies.missing _).mpr
        ⟨a, List.mem_filter.mpr ⟨ha, by simp [hfile]⟩, htext, hpath, rfl⟩⟩
    rw [hmissing] at hmem
    exact List.not_mem_nil hmem
  · intro f hf a ha hfile htext
    obtain ⟨d, _, hdraft⟩ := (mem_drafts hdrafts).1 f hf
    obtain ⟨_, _, _, hreplies⟩ := draft_ok hdraft
    exact hreplies.values a (List.mem_filter.mpr ⟨ha, by simp [hfile]⟩) htext

/-- Accepted arguments leave no required option unanswered, and the directory empty of the set. -/
theorem Accepted.clear (h : Accepted v makes sources set held srcs files answers) :
    ¬Unanswered v sources set ∧ ¬Occupied v sources set held := by
  constructor
  · rintro ⟨srcs', files', answers', hprepared, f, hf, required, hrequired, a, ha, hfile, htext,
      hpath⟩
    obtain ⟨rfl, rfl, rfl⟩ := h.toPrepared.unique hprepared
    obtain ⟨required', hrequired', hnot⟩ := h.required f hf
    rw [hrequired] at hrequired'
    cases hrequired'
    exact hnot a ha hfile htext hpath
  · rintro ⟨srcs', files', answers', hprepared, f, hf, hheld⟩
    obtain ⟨rfl, rfl, rfl⟩ := h.toPrepared.unique hprepared
    rw [h.vacant f hf] at hheld
    cases hheld

omit [UnicodeTables] in
/-- A set is written where there is a directory that holds none of its files; otherwise the
write is refused. -/
theorem writeSet_spec (makes : Bool) (dir : String) (written : List (String × String))
    (held : Directory) :
    (writeSet makes dir false written held = (written.foldl (fun (held : Directory) file =>
        Function.update held file.1 (some file.2)) held, .ok ()) ∧
      makes = true ∧ ∀ name ∈ written.map Prod.fst, held name = none) ∨
    ((∃ why, writeSet makes dir false written held = (held, .error why)) ∧
      ¬(makes = true ∧ ∀ name ∈ written.map Prod.fst, held name = none)) := by
  unfold writeSet
  cases makes with
  | false => exact Or.inr ⟨⟨_, rfl⟩, by simp⟩
  | true =>
    by_cases hpresent : ((written.map Prod.fst).filter fun name => (held name).isSome) = []
    · rw [hpresent]
      refine Or.inl ⟨rfl, rfl, ?_⟩
      intro name hname
      simpa using List.filter_eq_nil_iff.mp hpresent name hname
    · refine Or.inr ⟨⟨_, by rw [if_neg (by simp), if_pos (by simpa using hpresent)]⟩, ?_⟩
      rintro ⟨_, hvacant⟩
      refine hpresent (List.filter_eq_nil_iff.mpr ?_)
      intro name hname
      simp [hvacant name hname]

/-- **What the command does**: either it refuses, or finds a required option answered empty, and
the directory is as it was; or the arguments are accepted, and the drafts of their files land. -/
theorem init_cases
    (hdocument : ∀ answers drafts, drafted v sources set = .ok (answers, drafts) → ∀ d ∈ drafts,
      toml.document d.body = some (statements toml d.file.body d.decisions)) :
    ((init v makes dir sources set false held).1 = held ∧
      ((∃ why, (init v makes dir sources set false held).2 = .error why) ∨
        Unanswered v sources set) ∧
      ∀ srcs files answers, ¬Accepted v makes sources set held srcs files answers) ∨
    ∃ srcs files answers drafts, Accepted v makes sources set held srcs files answers ∧
      Landed files answers drafts held (init v makes dir sources set false held).1 ∧
      (init v makes dir sources set false held).2 = .ok (report drafts answers) := by
  unfold init
  cases hdrafted : drafted v sources set with
  | error why =>
    refine Or.inl ⟨rfl, Or.inl ⟨why, rfl⟩, ?_⟩
    intro srcs files answers haccepted
    obtain ⟨drafts, hdrafts⟩ := drafted_of_accepted haccepted
    rw [hdrafted] at hdrafts
    cases hdrafts
  | ok pair =>
    obtain ⟨answers, drafts⟩ := pair
    obtain ⟨srcs, files, hprepared, hoverruled, hdrafts⟩ := drafted_ok hdrafted
    dsimp only
    by_cases hmissing : (drafts.flatMap fun d => d.replies.missing) = []
    · rw [if_neg (by simp [hmissing])]
      have hnames : (drafts.map fun d => (d.file.name, d.body)).map Prod.fst =
          files.map fun f => f.name := by
        rw [List.map_map, ← mem_names hdrafts]
        rfl
      rcases writeSet_spec makes dir (drafts.map fun d => (d.file.name, d.body)) held with
        ⟨hready, hmakes, hvacant⟩ | ⟨⟨why, hrefused⟩, hnot⟩
      · rw [hready]
        rw [hnames] at hvacant
        have haccepted := accepted_of_drafts hprepared hoverruled hdrafts hmissing hmakes
          fun f hf => hvacant f.name (List.mem_map_of_mem hf)
        refine Or.inr ⟨srcs, files, answers, drafts, haccepted, ?_, rfl⟩
        obtain ⟨hothers, hheld⟩ := foldl_written (drafts.map fun d => (d.file.name, d.body)) held
        rw [hnames] at hothers hheld
        refine ⟨(mem_drafts hdrafts).1, (mem_drafts hdrafts).2, ?_, ?_⟩
        · intro d hd
          exact ⟨hheld (planned hprepared.laid).distinct _ (List.mem_map_of_mem hd),
            hdocument answers drafts hdrafted d hd⟩
        · intro name hname
          refine hothers name ?_
          intro hmem
          obtain ⟨f, hf, rfl⟩ := List.mem_map.mp hmem
          exact hname f hf rfl
      · rw [hrefused]
        refine Or.inl ⟨rfl, Or.inl ⟨why, rfl⟩, ?_⟩
        intro srcs' files' answers' haccepted
        obtain ⟨rfl, rfl, rfl⟩ := hprepared.unique haccepted.toPrepared
        refine hnot ⟨haccepted.directory, ?_⟩
        rw [hnames]
        intro name hname
        obtain ⟨f, hf, rfl⟩ := List.mem_map.mp hname
        exact haccepted.vacant f hf
    · rw [if_pos (by simpa using hmissing)]
      have hunanswered := unanswered_of_missing hprepared hdrafts hmissing
      exact Or.inl ⟨rfl, Or.inr hunanswered, fun _ _ _ haccepted => haccepted.clear.1 hunanswered⟩

/-- Where drafts of accepted arguments landed, the set is consistent exactly when the answers are
settled. -/
theorem consistent_iff_settled
    (haccepted : Accepted v makes sources set held srcs files answers) {drafts : List (Draft toml)}
    (hlanded : Landed files answers drafts held (init v makes dir sources set false held).1)
    (hreport : (init v makes dir sources set false held).2 = .ok (report drafts answers)) :
    Consistent v makes dir sources set held ↔ Settled files answers := by
  have hwritten := written_iff (planned haccepted.laid) haccepted hlanded
  have hclear : ¬((∃ why, (init v makes dir sources set false held).2 = .error why) ∨
      Unanswered v sources set ∨ Occupied v sources set held) := by
    rintro (⟨why, herror⟩ | hunanswered | hoccupied)
    · rw [hreport] at herror
      cases herror
    · exact haccepted.clear.1 hunanswered
    · exact haccepted.clear.2 hoccupied
  constructor
  · rintro ⟨_, hconsistent⟩
    obtain ⟨srcs', files', answers', report', hprepared, hsame, hset⟩ := hconsistent hclear
    obtain ⟨rfl, rfl, rfl⟩ := haccepted.toPrepared.unique hprepared
    rw [hreport] at hsame
    cases hsame
    exact hwritten.mp hset
  · intro hsettled
    exact ⟨fun h => absurd h hclear, fun _ =>
      ⟨srcs, files, answers, _, haccepted.toPrepared, hreport, hwritten.mpr hsettled⟩⟩

/-- **When what is written is consistent**: for arguments that are accepted, exactly when every
answer has its option's type and two answers about one option stand for one value. The
library reads a written file as what its lines state. -/
theorem init_consistent_iff
    (hdocument : ∀ answers drafts, drafted v sources set = .ok (answers, drafts) → ∀ d ∈ drafts,
      toml.document d.body = some (statements toml d.file.body d.decisions)) :
    Consistent v makes dir sources set held ↔ ∀ srcs files answers,
      Accepted v makes sources set held srcs files answers → Settled files answers := by
  rcases @init_cases _ _ _ makes dir _ _ held hdocument with
    ⟨hheld, hrefused, hnone⟩ | ⟨srcs, files, answers, drafts, haccepted, hlanded, hreport⟩
  · constructor
    · intro _ srcs files answers haccepted
      exact absurd haccepted (hnone srcs files answers)
    · intro _
      exact ⟨fun _ => hheld, fun hnot => absurd (hrefused.imp_right Or.inl) hnot⟩
  · rw [consistent_iff_settled haccepted hlanded hreport]
    constructor
    · intro hsettled srcs' files' answers' haccepted'
      obtain ⟨rfl, rfl, rfl⟩ := haccepted.toPrepared.unique haccepted'.toPrepared
      exact hsettled
    · intro hsettled
      exact hsettled srcs files answers haccepted

end Consistent

section Sample

/-- A value as it is printed, with the name of its type. -/
structure Printed where
  typeName : String
  text : String
  deriving DecidableEq

/-- A value that is printed as a string, a list or a number. -/
def Printed.parse (text : String) : Option Printed :=
  match text.toList.head?, text.toList.getLast? with
  | some '"', some '"' => if 2 ≤ text.length then some ⟨"string", text⟩ else none
  | some '[', some ']' => some ⟨"array", text⟩
  | some c, _ => if c.isDigit then some ⟨"integer", text⟩ else none
  | none, _ => none

/-- The values that the lines of a document state below a header. -/
def statedFrom : String → List String → List (String × Printed)
  | _, [] => []
  | table, line :: rest =>
    match headerName line, splitOnceOn " = " line with
    | some name, _ => statedFrom (name ++ ".") rest
    | none, some (key, text) =>
      match startsWith line "#", Printed.parse text with
      | false, some v => (table ++ key, v) :: statedFrom table rest
      | _, _ => statedFrom table rest
    | none, none => statedFrom table rest

/-- Documents whose values are printed on one line each. -/
def sampleToml : Toml where
  Value := Printed
  string text := ⟨"string", "\"" ++ text ++ "\""⟩
  array values := ⟨"array", "[" ++ ", ".intercalate (values.map Printed.text) ++ "]"⟩
  typeStr := Printed.typeName
  typeStr_string _ := rfl
  parse := Printed.parse
  display := Printed.text
  document body := some (statedFrom "" (textLines body))

instance : DecidableEq sampleToml.Value := inferInstanceAs (DecidableEq Printed)

/-- The text of a template of the sample version. -/
def sampleBody (name : String) : String :=
  if name = mainFile then "#sources = []\n"
  else if name = "realm.toml" then "# Example: \"EXAMPLE.SITE\"\n#realm =\n"
  else "#port = 636\n"

/-- A version whose realm file must state the realm. -/
def sampleVersion : Version sampleToml where
  base := .ok (baseFiles.map fun name =>
    ⟨name, sampleBody name, .ok (if name = "realm.toml" then ["realm"] else [])⟩)
  source name _ := .ok ⟨sourceFile name, "#name =\n#provider =\n", .ok ["name", "provider"]⟩
  baseNames files h := by
    cases h
    decide
  sourceNames name provider f h := by
    cases h
    rfl
  listsSources files h f hf hname := by
    cases h
    obtain ⟨name, _, rfl⟩ := List.mem_map.mp hf
    dsimp only at hname
    subst hname
    decide
  namesSource name provider f h := by
    cases h
    have hpaths : optionPaths sampleToml "#name =\n#provider =\n" = ["name", "provider"] := by
      decide
    simp [hpaths]

/-- Whether every file that is drafted reads as what its lines state. -/
def readable (sources set : List String) : Bool :=
  match @drafted sampleToml asciiTables sampleVersion sources set with
  | .error _ => true
  | .ok (_, drafts) => drafts.all fun d =>
      decide (sampleToml.document d.body = some (statements sampleToml d.file.body d.decisions))

/-- Files that are readable are read as what their lines state. -/
theorem document_of_readable {sources set : List String} (h : readable sources set = true) :
    ∀ answers drafts, @drafted sampleToml asciiTables sampleVersion sources set =
      .ok (answers, drafts) → ∀ d ∈ drafts,
        sampleToml.document d.body = some (statements sampleToml d.file.body d.decisions) := by
  intro answers drafts hdrafted d hd
  unfold readable at h
  rw [hdrafted] at h
  exact of_decide_eq_true (List.all_eq_true.mp h d hd)

/-- The files of the sample version hold its templates. -/
theorem body_of_laid {srcs : List Source} {files : List (File sampleToml)} {name : String}
    (h : plan sampleVersion srcs = .ok files) {f : File sampleToml} (hf : f ∈ files)
    (hname : f.name = name)
    (hbodies : ((plan sampleVersion srcs).toOption.getD []).all fun f =>
      f.name != name || f.body == sampleBody name) : f.body = sampleBody name := by
  rw [h] at hbodies
  simpa [hname] using List.all_eq_true.mp hbodies f hf

/-- The realm's option is shown with a string. -/
theorem shown_realm : shownFor sampleToml (sampleBody "realm.toml") "realm" =
    some (sampleToml.string "EXAMPLE.SITE") := by
  decide

/-- An answer about the realm stands for its text. -/
theorem value_realm (text : String) : @Answer.value asciiTables sampleToml
    ⟨"realm.toml", "realm", text⟩ (shownFor sampleToml (sampleBody "realm.toml") "realm") =
      .ok (sampleToml.string text) := by
  rw [shown_realm]
  rfl

/-- One source and the answer to the one question that must be answered: the set is consistent. -/
theorem init_consistent_entra :
    @Consistent sampleToml asciiTables sampleVersion true "/etc/kerbridge" ["entra"]
      ["realm.realm=A.SITE"] fun _ => none := by
  let _ := asciiTables
  refine (init_consistent_iff (document_of_readable (by decide +kernel))).mpr ?_
  intro srcs files answers haccepted
  have hanswers : answers = [⟨"realm.toml", "realm", "A.SITE"⟩] := by
    have hsplit : ["realm.realm=A.SITE"].mapM Answer.parse =
        .ok [⟨"realm.toml", "realm", "A.SITE"⟩] := by decide
    rw [haccepted.split] at hsplit
    exact Except.ok.inj hsplit
  have hsrcs : srcs = [⟨"entra", .entra⟩] := by
    have hnamed : ["entra"].mapM Source.parse = .ok [⟨"entra", .entra⟩] := by decide
    rw [haccepted.named] at hnamed
    exact Except.ok.inj hnamed
  subst hanswers hsrcs
  intro a ha f value hstands
  cases List.mem_singleton.mp ha
  have hbody := body_of_laid haccepted.laid hstands.file hstands.name (by decide)
  have hvalue := hstands.value
  rw [hbody, value_realm] at hvalue
  cases hvalue
  constructor
  · intro shown hshown
    rw [hbody, shown_realm] at hshown
    cases hshown
    rfl
  · intro b hb _ w hw
    cases List.mem_singleton.mp hb
    have hvalue := hw.value
    rw [hbody, value_realm] at hvalue
    exact (Except.ok.inj hvalue).symm

/-- Two answers about one option: only the first is written, and the other one is not reported. -/
theorem init_inconsistent_twice :
    ¬@Consistent sampleToml asciiTables sampleVersion true "/etc/kerbridge" []
      ["realm.realm=A.SITE", "realm.realm=B.SITE"] fun _ => none := by
  let _ := asciiTables
  intro h
  rcases @init_cases _ _ _ true "/etc/kerbridge" _ _ (fun _ => none)
    (@document_of_readable [] ["realm.realm=A.SITE", "realm.realm=B.SITE"]
      (by decide +kernel)) with ⟨hheld, _, _⟩ | ⟨srcs, files, answers, drafts, haccepted, hlanded, hreport⟩
  · have hnone := congrFun hheld "realm.toml"
    have hsome : ((init sampleVersion true "/etc/kerbridge" []
      ["realm.realm=A.SITE", "realm.realm=B.SITE"] false fun _ => none).1 "realm.toml").isSome := by
      decide
    rw [hnone] at hsome
    cases hsome
  · have hsettled := (consistent_iff_settled haccepted hlanded hreport).mp h
    cases haccepted.named
    have hanswers : answers = [⟨"realm.toml", "realm", "A.SITE"⟩, ⟨"realm.toml", "realm", "B.SITE"⟩] := by
      have hsplit : ["realm.realm=A.SITE", "realm.realm=B.SITE"].mapM Answer.parse =
          .ok [⟨"realm.toml", "realm", "A.SITE"⟩, ⟨"realm.toml", "realm", "B.SITE"⟩] := by
        decide
      rw [haccepted.split] at hsplit
      exact Except.ok.inj hsplit
    subst hanswers
    obtain ⟨f, hf, hname⟩ : ∃ f ∈ files, f.name = "realm.toml" := by
      refine List.mem_map.mp ?_
      rw [(planned haccepted.laid).names]
      simp [baseFiles]
    have hbody := body_of_laid haccepted.laid hf hname (by decide)
    have hstands : ∀ text, text ≠ "" →
        Stands files ⟨"realm.toml", "realm", text⟩ f (sampleToml.string text) := by
      intro text htext
      refine ⟨hf, hname, ?_, htext, ?_⟩
      · rw [hbody]
        change "realm" ∈ optionPaths sampleToml (sampleBody "realm.toml")
        decide
      · rw [hbody]
        exact value_realm text
    have hsame := (hsettled _ (by simp) f _ (hstands "A.SITE" (by decide))).2
      ⟨"realm.toml", "realm", "B.SITE"⟩ (by simp) rfl _ (hstands "B.SITE" (by decide))
    revert hsame
    decide

end Sample

end Kerbridge.Kbconfig

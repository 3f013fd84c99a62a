import Kerbridge.Problems

/-!
# What is found in the records of problems

What is found for an event and a subject after every operation, in memory and in the
directory: as long as no two records share a file name, the directory holds the records
that are kept in memory, and reading it back gives those that are still needed.
-/

namespace Kerbridge.Notify

open Std (ExtTreeMap)

/-- What is found once a record was kept. -/
theorem find_put (records : Records) (p : Problem) (event subject : String) :
    (records.put p).find event subject =
      if p.event = event ∧ p.subject = subject then some p else records.find event subject := by
  unfold Records.find Records.put
  rw [ExtTreeMap.getElem?_insert]
  by_cases hevent : p.event = event
  · subst hevent
    rw [if_pos (by simp), Option.bind_some, ExtTreeMap.getElem?_insert]
    by_cases hsubject : p.subject = subject
    · subst hsubject
      simp
    · rw [if_neg (by simpa using hsubject), if_neg (by simpa using hsubject)]
      cases records[p.event]? with
      | none => simp
      | some subjects => rfl
  · rw [if_neg (by simpa using hevent), if_neg (fun h => hevent h.1)]

/-- What is found once a record was stored. -/
theorem find_store (ps : Problems) (p : Problem) (event subject : String) :
    (ps.store p).records.find event subject =
      if p.event = event ∧ p.subject = subject then some p
      else ps.records.find event subject :=
  find_put ps.records p event subject

/-- Every record stands under its own event and subject. -/
def Keyed (records : Records) : Prop :=
  ∀ event subject p, records.find event subject = some p → p.event = event ∧ p.subject = subject

/-- A record kept stands under its own event and subject. -/
theorem Keyed.put {records : Records} (h : Keyed records) (p : Problem) :
    Keyed (records.put p) := by
  intro event subject q hq
  rw [find_put] at hq
  split at hq
  · rename_i hkey
    cases hq
    exact hkey
  · exact h event subject q hq

/-- What is found once some records were stored, none of them of the event and subject. -/
theorem find_stored_other (ps : List Problem) (start : Problems) {event subject : String}
    (h : ∀ p ∈ ps, ¬(p.event = event ∧ p.subject = subject)) :
    (ps.foldl Problems.store start).records.find event subject =
      start.records.find event subject := by
  induction ps generalizing start with
  | nil => rfl
  | cons p ps ih =>
    obtain ⟨hp, hrest⟩ := List.forall_mem_cons.mp h
    rw [List.foldl_cons, ih _ hrest, find_store, if_neg hp]

/-- What is found once some records were stored, of which one alone is of the event and subject. -/
theorem find_stored {ps : List Problem} {start : Problems} {p : Problem} (hp : p ∈ ps)
    (hunique : ∀ q ∈ ps, q.event = p.event ∧ q.subject = p.subject → q = p) :
    (ps.foldl Problems.store start).records.find p.event p.subject = some p := by
  induction ps generalizing start with
  | nil => cases hp
  | cons q ps ih =>
    obtain ⟨hq, hrest⟩ := List.forall_mem_cons.mp hunique
    rw [List.foldl_cons]
    by_cases hmem : p ∈ ps
    · exact ih hmem hrest
    · have hsame : q = p := (List.mem_cons.mp hp).elim Eq.symm fun hin => absurd hin hmem
      have hother : ∀ r ∈ ps, ¬(r.event = p.event ∧ r.subject = p.subject) := by
        intro r hr hkey
        exact hmem (hrest r hr hkey ▸ hr)
      rw [find_stored_other ps _ hother, find_store, hsame, if_pos ⟨rfl, rfl⟩]

/-- What is found once the records of an event were replaced. -/
theorem find_insert (records : Records) (replaced : String) (subjects : ExtTreeMap String Problem)
    (event subject : String) :
    Records.find (records.insert replaced subjects) event subject =
      if replaced = event then subjects[subject]? else records.find event subject := by
  unfold Records.find
  rw [ExtTreeMap.getElem?_insert]
  by_cases hevent : replaced = event
  · rw [if_pos (by simpa using hevent), if_pos hevent, Option.bind_some]
  · rw [if_neg (by simpa using hevent), if_neg hevent]

/-- A record that is closed if it is open. -/
def Problem.settle (p : Problem) : Problem := if p.isOpen then p.close else p

/-- Closing keeps the event and the subject of a record. -/
theorem settle_key (p : Problem) :
    p.settle.event = p.event ∧ p.settle.subject = p.subject := by
  unfold Problem.settle
  split
  · exact ⟨rfl, rfl⟩
  · exact ⟨rfl, rfl⟩

/-- What is found of an event that was resolved. -/
theorem find_resolve {ps : Problems} (hkeyed : Keyed ps.records)
    (resolved event subject : String) :
    (ps.resolve resolved).2.records.find event subject =
      if resolved = event then (ps.records.find event subject).map Problem.settle
      else ps.records.find event subject := by
  unfold Problems.resolve
  cases hsubjects : ps.records[resolved]? with
  | none =>
    dsimp only
    split
    · rename_i hevent
      subst hevent
      unfold Records.find
      rw [hsubjects]
      rfl
    · rfl
  | some subjects =>
    dsimp only
    have hfound : ∀ s, ps.records.find resolved s = subjects[s]? := by
      intro s
      unfold Records.find
      rw [hsubjects, Option.bind_some]
    have hentry : ∀ e ∈ subjects.toList, ps.records.find resolved e.1 = some e.2 := by
      intro e he
      rw [hfound]
      exact ExtTreeMap.mem_toList_iff_getElem?_eq_some.mp he
    -- what is stored again is what was open, closed, each under its own subject
    have hstored : ∀ q ∈ (subjects.toList.filter fun e => e.2.isOpen).map fun e => e.2.close,
        ∃ p, ps.records.find resolved q.subject = some p ∧ p.isOpen = true ∧ q = p.close ∧
          q.event = resolved := by
      intro q hq
      obtain ⟨e, he, rfl⟩ := List.mem_map.mp hq
      obtain ⟨hmem, hopen⟩ := List.mem_filter.mp he
      obtain ⟨hevent, hsubject⟩ := hkeyed resolved e.1 e.2 (hentry e hmem)
      refine ⟨e.2, ?_, hopen, rfl, hevent⟩
      change ps.records.find resolved e.2.subject = _
      rw [hsubject]
      exact hentry e hmem
    by_cases hopen : resolved = event ∧
        ∃ p, ps.records.find event subject = some p ∧ p.isOpen = true
    · obtain ⟨rfl, p, hp, hopen⟩ := hopen
      obtain ⟨hevent, hsubject⟩ := hkeyed _ _ _ hp
      have hmem : p.close ∈
          (subjects.toList.filter fun e => e.2.isOpen).map fun e => e.2.close := by
        refine List.mem_map.mpr ⟨(subject, p), List.mem_filter.mpr ⟨?_, hopen⟩, rfl⟩
        rw [ExtTreeMap.mem_toList_iff_getElem?_eq_some, ← hfound, hp]
      have hstart := @find_stored _ ⟨ps.dir, ps.records.insert resolved
        (subjects.map fun _ p => if p.isOpen then p.close else p)⟩ p.close hmem ?_
      · change Records.find _ p.event p.subject = _ at hstart
        rw [hevent, hsubject] at hstart
        rw [hstart, if_pos rfl, hp, Option.map_some, Problem.settle, if_pos hopen]
      · rintro q hq ⟨_, hkey⟩
        obtain ⟨o, ho, _, heq, _⟩ := hstored q hq
        rw [hkey] at ho
        change ps.records.find resolved p.subject = _ at ho
        rw [hsubject, hp] at ho
        cases ho
        exact heq
    · rw [find_stored_other, find_insert]
      · split
        · rename_i hevent
          subst hevent
          rw [ExtTreeMap.getElem?_map, hfound]
          rfl
        · rfl
      · rintro q hq ⟨hevent, hsubject⟩
        obtain ⟨p, hp, hisOpen, _, hresolved⟩ := hstored q hq
        refine hopen ⟨hresolved.symm.trans hevent, p, ?_, hisOpen⟩
        rw [← hsubject, ← hevent, hresolved]
        exact hp

/-- What is found once one record of an event was resolved. -/
theorem find_resolveOne {ps : Problems} (hkeyed : Keyed ps.records)
    (resolved one event subject : String) :
    (ps.resolveOne resolved one).2.records.find event subject =
      if resolved = event ∧ one = subject then (ps.records.find event subject).map Problem.settle
      else ps.records.find event subject := by
  have hsettled : ∀ p : Problem, p.isOpen = false → p.settle = p := by
    intro p hclosed
    unfold Problem.settle
    rw [hclosed]
    rfl
  have hsame : (∀ p, ps.records.find resolved one = some p → p.isOpen = false) →
      ps.records.find event subject = if resolved = event ∧ one = subject then
        (ps.records.find event subject).map Problem.settle else ps.records.find event subject := by
    intro hclosed
    split
    · rename_i hkey
      obtain ⟨rfl, rfl⟩ := hkey
      cases hp : ps.records.find resolved one with
      | none => rfl
      | some p => rw [Option.map_some, hsettled p (hclosed p hp)]
    · rfl
  unfold Problems.resolveOne
  have hfind : ps.records.find resolved one = ps.records[resolved]?.bind fun s => s[one]? := rfl
  cases hsubjects : ps.records[resolved]? with
  | none =>
    refine hsame ?_
    intro p hp
    rw [hfind, hsubjects] at hp
    cases hp
  | some subjects =>
    rw [hsubjects, Option.bind_some] at hfind
    dsimp only
    cases hone : subjects[one]? with
    | none =>
      refine hsame ?_
      intro p hp
      rw [hfind, hone] at hp
      cases hp
    | some p =>
      rw [hone] at hfind
      obtain ⟨hevent, hsubject⟩ := hkeyed _ _ _ hfind
      dsimp only
      cases hopen : p.isOpen with
      | false =>
        refine hsame ?_
        intro q hq
        rw [hfind] at hq
        cases hq
        exact hopen
      | true =>
        rw [if_pos rfl, find_store]
        change (if p.event = event ∧ p.subject = subject then _ else _) = _
        rw [hevent, hsubject]
        split
        · rename_i hkey
          obtain ⟨rfl, rfl⟩ := hkey
          rw [hfind, Option.map_some, Problem.settle, if_pos hopen]
        · rename_i hkey
          change Records.find (ps.records.insert resolved (subjects.insert one p.close)) _ _ = _
          rw [find_insert]
          split
          · rename_i hsameEvent
            have hsubjects' : ps.records.find event subject = subjects[subject]? := by
              unfold Records.find
              rw [← hsameEvent, hsubjects, Option.bind_some]
            rw [ExtTreeMap.getElem?_insert, if_neg, hsubjects']
            intro hc
            exact hkey ⟨hsameEvent, by simpa using hc⟩
          · rfl

/-- The stem of a file name is read off it, and so is its class. -/
theorem fileName_inj {isOpen isOpen' : Bool} {event subject event' subject' : String}
    (h : fileName isOpen event subject = fileName isOpen' event' subject') :
    isOpen = isOpen' ∧ fileStem event subject = fileStem event' subject' := by
  unfold fileName at h
  have hchars := congrArg String.toList h
  simp only [String.toList_append, List.append_assoc] at hchars
  cases isOpen with
  | true =>
    cases isOpen' with
    | true =>
      refine ⟨rfl, String.toList_inj.mp ?_⟩
      exact List.append_cancel_right (List.append_cancel_left (List.append_cancel_left hchars))
    | false =>
      have hhead := congrArg List.head? hchars
      simp [fileClass] at hhead
  | false =>
    cases isOpen' with
    | true =>
      have hhead := congrArg List.head? hchars
      simp [fileClass] at hhead
    | false =>
      refine ⟨rfl, String.toList_inj.mp ?_⟩
      exact List.append_cancel_right (List.append_cancel_left (List.append_cancel_left hchars))

/-- Every record has the name of a state file. -/
theorem isStateFile_fileName (isOpen : Bool) (event subject : String) :
    isStateFile (fileName isOpen event subject) = true := by
  have hsuffix : ".json".toList.isSuffixOf (fileName isOpen event subject).toList = true := by
    rw [List.isSuffixOf_iff_suffix]
    unfold fileName
    rw [String.toList_append]
    exact List.suffix_append _ _
  have hstarts : ∀ cls : String, (cls ++ "-").toList.isPrefixOf
      (cls ++ "-" ++ fileStem event subject ++ ".json").toList = true := by
    intro cls
    have hsplit : (cls ++ "-" ++ fileStem event subject ++ ".json").toList =
        (cls ++ "-").toList ++ (fileStem event subject ++ ".json").toList := by
      rw [String.append_assoc, ← String.toList_append]
    rw [List.isPrefixOf_iff_prefix, hsplit]
    exact List.prefix_append _ _
  unfold isStateFile
  rw [hsuffix, Bool.true_and, Bool.or_eq_true]
  cases isOpen with
  | true => exact Or.inl (hstarts "problem")
  | false => exact Or.inr (hstarts "recent")

/-- Two keys among some have no file name in common. -/
def StemsApart (keys : String → String → Prop) : Prop :=
  ∀ e s e' s', keys e s → keys e' s' → fileStem e s = fileStem e' s' → e = e' ∧ s = s'

/-- The directory holds the records that are kept in memory, and no other. -/
structure Mirrors (keys : String → String → Prop) (dir : Directory) (records : Records) : Prop where
  keyed : Keyed records
  within : ∀ e s p, records.find e s = some p → keys e s
  written : ∀ e s p, records.find e s = some p → dir[fileName p.isOpen e s]? = some (some p)
  known : ∀ name body, dir[name]? = some body → isStateFile name = true →
    ∃ p, body = some p ∧ name = fileName p.isOpen p.event p.subject ∧
      records.find p.event p.subject = some p

/-- A record that is kept is mirrored. -/
theorem Mirrors.store {keys : String → String → Prop} {dir : Directory} {records : Records}
    (hapart : StemsApart keys) (h : Mirrors keys dir records) {p : Problem}
    (hp : keys p.event p.subject) : Mirrors keys (writeFile dir p) (records.put p) := by
  have hother : ∀ e s (isOpen isOpen' : Bool), keys e s → ¬(p.event = e ∧ p.subject = s) →
      fileName isOpen p.event p.subject ≠ fileName isOpen' e s := by
    intro e s isOpen isOpen' hkey hne hname
    exact hne (hapart _ _ _ _ hp hkey (fileName_inj hname).2)
  have hclass : fileName p.isOpen p.event p.subject ≠ fileName (!p.isOpen) p.event p.subject := by
    intro hname
    have hsame := (fileName_inj hname).1
    simp at hsame
  refine ⟨h.keyed.put p, ?_, ?_, ?_⟩
  · intro e s q hq
    rw [find_put] at hq
    split at hq
    · rename_i hkey
      rw [← hkey.1, ← hkey.2]
      exact hp
    · exact h.within e s q hq
  · intro e s q hq
    rw [find_put] at hq
    unfold writeFile
    split at hq
    · rename_i hkey
      cases hq
      rw [← hkey.1, ← hkey.2, ExtTreeMap.getElem?_insert, if_pos (by simp)]
    · rename_i hkey
      have hwithin := h.within e s q hq
      have hstale := hother e s (!p.isOpen) q.isOpen hwithin hkey
      have hfresh := hother e s p.isOpen q.isOpen hwithin hkey
      rw [ExtTreeMap.getElem?_insert, if_neg (by simpa using hfresh), ExtTreeMap.getElem?_erase,
        if_neg (by simpa using hstale)]
      exact h.written e s q hq
  · intro name body hbody hstate
    unfold writeFile at hbody
    rw [ExtTreeMap.getElem?_insert] at hbody
    split at hbody
    · rename_i hname
      cases hbody
      refine ⟨p, rfl, (Std.LawfulEqCmp.eq_of_compare hname).symm, ?_⟩
      rw [find_put, if_pos ⟨rfl, rfl⟩]
    · rename_i hname
      rw [ExtTreeMap.getElem?_erase] at hbody
      split at hbody
      · cases hbody
      · rename_i hstale
        obtain ⟨q, hq, hfile, hfind⟩ := h.known name body hbody hstate
        refine ⟨q, hq, hfile, ?_⟩
        rw [find_put, if_neg]
        · exact hfind
        · rintro ⟨hevent, hsubject⟩
          -- the file of the same key is the one that was written or the one that was removed
          rw [hfile, ← hevent, ← hsubject] at hname hstale
          cases hsame : decide (q.isOpen = p.isOpen) with
          | true =>
            rw [of_decide_eq_true hsame] at hname
            exact hname (by simp)
          | false =>
            have hdiffer : q.isOpen = !p.isOpen := by
              have hne := of_decide_eq_false hsame
              generalize q.isOpen = a at hne ⊢
              generalize p.isOpen = b at hne ⊢
              cases a
              all_goals
                cases b
                all_goals simp at hne ⊢
            rw [hdiffer] at hstale
            exact hstale (by simp)

/-- What is mirrored depends on what is found alone. -/
theorem Mirrors.congr {keys : String → String → Prop} {dir : Directory}
    {records records' : Records} (h : Mirrors keys dir records)
    (hfind : ∀ e s, records'.find e s = records.find e s) : Mirrors keys dir records' := by
  refine ⟨?_, ?_, ?_, ?_⟩
  · intro e s p hp
    exact h.keyed e s p (by rw [← hfind, hp])
  · intro e s p hp
    exact h.within e s p (by rw [← hfind, hp])
  · intro e s p hp
    exact h.written e s p (by rw [← hfind, hp])
  · intro name body hbody hstate
    obtain ⟨p, hp, hname, hfound⟩ := h.known name body hbody hstate
    exact ⟨p, hp, hname, by rw [hfind, hfound]⟩

/-- There is a directory, and it holds the records. -/
def Problems.Mirrored (keys : String → String → Prop) (ps : Problems) : Prop :=
  ∃ dir, ps.dir = some dir ∧ Mirrors keys dir ps.records

/-- Records that are kept one after the other are mirrored. -/
theorem mirrored_stored {keys : String → String → Prop} (hapart : StemsApart keys)
    {ps : List Problem} {start : Problems} (hkeys : ∀ p ∈ ps, keys p.event p.subject)
    (h : start.Mirrored keys) : (ps.foldl Problems.store start).Mirrored keys := by
  induction ps generalizing start with
  | nil => exact h
  | cons p ps ih =>
    obtain ⟨hp, hrest⟩ := List.forall_mem_cons.mp hkeys
    obtain ⟨dir, hdir, hmirrors⟩ := h
    refine ih hrest ⟨writeFile dir p, ?_, hmirrors.store hapart hp⟩
    change start.dir.map _ = _
    rw [hdir, Option.map_some]

/-- What is written depends on the directory before it alone. -/
theorem dir_stored {ps : List Problem} {start start' : Problems} (h : start.dir = start'.dir) :
    (ps.foldl Problems.store start).dir = (ps.foldl Problems.store start').dir := by
  induction ps generalizing start start' with
  | nil => exact h
  | cons p ps ih =>
    refine ih ?_
    change start.dir.map _ = start'.dir.map _
    rw [h]

/-- What is found does not depend on records that are stored over. -/
theorem find_stored_congr {ps : List Problem} {start start' : Problems}
    (h : ∀ e s, (∃ p ∈ ps, p.event = e ∧ p.subject = s) ∨
      start.records.find e s = start'.records.find e s) (event subject : String) :
    (ps.foldl Problems.store start).records.find event subject =
      (ps.foldl Problems.store start').records.find event subject := by
  induction ps generalizing start start' with
  | nil =>
    refine (h event subject).resolve_left ?_
    rintro ⟨p, hp, _⟩
    cases hp
  | cons p ps ih =>
    refine ih fun e s => ?_
    rw [find_store, find_store]
    by_cases hkey : p.event = e ∧ p.subject = s
    · rw [if_pos hkey, if_pos hkey]
      exact Or.inr rfl
    · rw [if_neg hkey, if_neg hkey]
      rcases h e s with ⟨q, hq, hqkey⟩ | hsame
      · rcases List.mem_cons.mp hq with rfl | hmem
        · exact absurd hqkey hkey
        · exact Or.inl ⟨q, hmem, hqkey⟩
      · exact Or.inr hsame

/-- A ledger that stores records over those it replaced in memory is mirrored. -/
theorem mirrored_replaced {keys : String → String → Prop} (hapart : StemsApart keys)
    {ps : List Problem} {start : Problems} {replaced : Records} (h : start.Mirrored keys)
    (hkeys : ∀ p ∈ ps, keys p.event p.subject)
    (hreplaced : ∀ e s, (∃ p ∈ ps, p.event = e ∧ p.subject = s) ∨
      replaced.find e s = start.records.find e s) :
    (ps.foldl Problems.store { start with records := replaced }).Mirrored keys := by
  obtain ⟨dir, hdir, hmirrors⟩ := mirrored_stored hapart hkeys h
  refine ⟨dir, ?_, hmirrors.congr (find_stored_congr hreplaced)⟩
  rw [← hdir]
  exact dir_stored rfl

/-- An event that is resolved leaves the ledger mirrored. -/
theorem mirrored_resolve {keys : String → String → Prop} (hapart : StemsApart keys)
    {ps : Problems} (h : ps.Mirrored keys) (event : String) :
    (ps.resolve event).2.Mirrored keys := by
  obtain ⟨dir, hdir, hmirrors⟩ := h
  have hfound : ∀ subjects, ps.records[event]? = some subjects →
      ∀ s, ps.records.find event s = subjects[s]? := by
    intro subjects hsubjects s
    unfold Records.find
    rw [hsubjects, Option.bind_some]
  unfold Problems.resolve
  cases hsubjects : ps.records[event]? with
  | none => exact ⟨dir, hdir, hmirrors⟩
  | some subjects =>
    refine mirrored_replaced hapart ⟨dir, hdir, hmirrors⟩ ?_ ?_
    · intro q hq
      obtain ⟨e, he, rfl⟩ := List.mem_map.mp hq
      have hget := ExtTreeMap.mem_toList_iff_getElem?_eq_some.mp (List.mem_filter.mp he).1
      rw [← hfound subjects hsubjects] at hget
      obtain ⟨hevent, hsubject⟩ := hmirrors.keyed _ _ _ hget
      have hwithin := hmirrors.within _ _ _ hget
      rw [← hevent, ← hsubject] at hwithin
      exact hwithin
    · intro e s
      rw [find_insert]
      by_cases hevent : event = e
      · subst hevent
        rw [if_pos rfl, ExtTreeMap.getElem?_map, hfound subjects hsubjects]
        cases hp : subjects[s]? with
        | none => exact Or.inr rfl
        | some p =>
          rw [Option.map_some]
          cases hopen : p.isOpen with
          | false => exact Or.inr rfl
          | true =>
            have hget : ps.records.find event s = some p := by
              rw [hfound subjects hsubjects, hp]
            obtain ⟨hevent, hsubject⟩ := hmirrors.keyed _ _ _ hget
            refine Or.inl ⟨p.close, List.mem_map.mpr ⟨(s, p), ?_, rfl⟩, hevent, hsubject⟩
            exact List.mem_filter.mpr ⟨ExtTreeMap.mem_toList_iff_getElem?_eq_some.mpr hp, hopen⟩
      · rw [if_neg hevent]
        exact Or.inr rfl

/-- One subject that is resolved leaves the ledger mirrored. -/
theorem mirrored_resolveOne {keys : String → String → Prop} (hapart : StemsApart keys)
    {ps : Problems} (h : ps.Mirrored keys) (event subject : String) :
    (ps.resolveOne event subject).2.Mirrored keys := by
  obtain ⟨dir, hdir, hmirrors⟩ := h
  unfold Problems.resolveOne
  cases hsubjects : ps.records[event]? with
  | none => exact ⟨dir, hdir, hmirrors⟩
  | some subjects =>
    have hfound : ∀ s, ps.records.find event s = subjects[s]? := by
      intro s
      unfold Records.find
      rw [hsubjects, Option.bind_some]
    dsimp only
    cases hone : subjects[subject]? with
    | none => exact ⟨dir, hdir, hmirrors⟩
    | some p =>
      dsimp only
      have hget : ps.records.find event subject = some p := by rw [hfound, hone]
      obtain ⟨hevent, hsubject⟩ := hmirrors.keyed _ _ _ hget
      split
      · refine @mirrored_replaced _ hapart [p.close] ps _ ⟨dir, hdir, hmirrors⟩ ?_ ?_
        · intro q hq
          rw [List.mem_singleton] at hq
          rw [hq]
          change keys p.event p.subject
          rw [hevent, hsubject]
          exact hmirrors.within _ _ _ hget
        · intro e s
          rw [find_insert]
          by_cases hkey : event = e ∧ subject = s
          · exact Or.inl ⟨p.close, List.mem_singleton.mpr rfl, hevent.trans hkey.1,
              hsubject.trans hkey.2⟩
          · refine Or.inr ?_
            split
            · rename_i hsame
              subst hsame
              rw [ExtTreeMap.getElem?_insert, if_neg, hfound]
              intro hc
              exact hkey ⟨rfl, by simpa using hc⟩
            · rfl
      · exact ⟨dir, hdir, hmirrors⟩

/-- The record a file gives, if it is one of the records and is still needed. -/
def keptRecord (now interval : ℕ) (file : String × Option Problem) : Option Problem :=
  if isStateFile file.1 then file.2.filter fun p => !p.prunable now interval else none

/-- One file adds the record it gives. -/
theorem loadFile_records (now interval : ℕ) (read : Directory × Records)
    (file : String × Option Problem) :
    (loadFile now interval read file).2 =
      match keptRecord now interval file with
      | none => read.2
      | some p => read.2.put p := by
  unfold loadFile keptRecord
  cases isStateFile file.1 with
  | false => rfl
  | true =>
    cases file.2 with
    | none => rfl
    | some p =>
      rw [if_pos rfl, if_pos rfl, Option.filter_some]
      dsimp only
      cases p.prunable now interval with
      | true => rfl
      | false => rfl

/-- The records that are read back are those that are still needed. -/
theorem foldl_loadFile_records (now interval : ℕ) (files : List (String × Option Problem))
    (read : Directory × Records) :
    (files.foldl (loadFile now interval) read).2 =
      (files.filterMap (keptRecord now interval)).foldl Records.put read.2 := by
  induction files generalizing read with
  | nil => rfl
  | cons file files ih =>
    rw [List.foldl_cons, ih, loadFile_records, List.filterMap_cons]
    cases keptRecord now interval file with
    | none => rfl
    | some p => rfl

/-- Whether a file goes when it is read: its record is not needed any more. -/
def Drops (now interval : ℕ) (file : String × Option Problem) : Prop :=
  isStateFile file.1 = true ∧ ∃ p, file.2 = some p ∧ p.prunable now interval = true

/-- One file leaves every other as it is, and stays unless its record is not needed. -/
theorem loadFile_dir (now interval : ℕ) (read : Directory × Records)
    (file : String × Option Problem) (name : String) (body : Option Problem) :
    (loadFile now interval read file).1[name]? = some body ↔
      read.1[name]? = some body ∧ ¬(file.1 = name ∧ Drops now interval file) := by
  unfold loadFile Drops
  cases hstate : isStateFile file.1 with
  | false => simp
  | true =>
    rw [if_pos rfl]
    cases file.2 with
    | none => simp
    | some p =>
      dsimp only
      cases hprune : p.prunable now interval with
      | false => simp [hprune]
      | true =>
        rw [if_pos rfl, ExtTreeMap.getElem?_erase]
        by_cases hname : file.1 = name
        · rw [if_pos (by simpa using hname)]
          simp [hname, hprune]
        · rw [if_neg (by simpa using hname)]
          simp [hname]

/-- The files that are left are those that are still needed. -/
theorem foldl_loadFile_dir (now interval : ℕ) (files : List (String × Option Problem))
    (read : Directory × Records) (name : String) (body : Option Problem) :
    (files.foldl (loadFile now interval) read).1[name]? = some body ↔
      read.1[name]? = some body ∧ ∀ file ∈ files, ¬(file.1 = name ∧ Drops now interval file) := by
  induction files generalizing read with
  | nil => simp
  | cons file files ih =>
    rw [List.foldl_cons, ih, loadFile_dir, List.forall_mem_cons, and_assoc]

/-- Keeping records in memory is what storing them does there. -/
theorem records_stored (ps : List Problem) (start : Problems) :
    (ps.foldl Problems.store start).records = ps.foldl Records.put start.records := by
  induction ps generalizing start with
  | nil => rfl
  | cons p ps ih => exact ih (start.store p)

/-- A mirrored ledger that is read back holds the records that are still needed, and is
mirrored again. -/
theorem load_mirrored {keys : String → String → Prop} {ps : Problems} (h : ps.Mirrored keys)
    (listing : Listing) (interval now : ℕ) :
    (Problems.load ps.dir listing interval now).Mirrored keys ∧
      ∀ event subject, (Problems.load ps.dir listing interval now).records.find event subject =
        (ps.records.find event subject).filter fun p => !p.prunable now interval := by
  obtain ⟨dir, hdir, hmirrors⟩ := h
  have hlisted : ∀ name body, (name, body) ∈ listing.files dir ↔ dir[name]? = some body := by
    intro name body
    rw [(listing.perm dir).mem_iff]
    exact ExtTreeMap.mem_toList_iff_getElem?_eq_some
  have hkept : ∀ p, p ∈ (listing.files dir).filterMap (keptRecord now interval) ↔
      ps.records.find p.event p.subject = some p ∧ p.prunable now interval = false := by
    intro p
    rw [List.mem_filterMap]
    constructor
    · rintro ⟨⟨name, body⟩, hmem, hrecord⟩
      unfold keptRecord at hrecord
      split at hrecord
      · rename_i hstate
        obtain ⟨rfl, hneeded⟩ := Option.filter_eq_some_iff.mp hrecord
        obtain ⟨q, hq, _, hfind⟩ := hmirrors.known name _ ((hlisted name _).mp hmem) hstate
        cases hq
        exact ⟨hfind, by simpa using hneeded⟩
      · cases hrecord
    · rintro ⟨hfind, hneeded⟩
      refine ⟨(fileName p.isOpen p.event p.subject, some p), ?_, ?_⟩
      · exact (hlisted _ _).mpr (hmirrors.written _ _ p hfind)
      · unfold keptRecord
        rw [if_pos (isStateFile_fileName _ _ _), Option.filter_some, hneeded]
        rfl
  have hrecords : (Problems.load ps.dir listing interval now).records =
      (((listing.files dir).filterMap (keptRecord now interval)).foldl
        Problems.store {}).records := by
    rw [hdir, records_stored]
    exact foldl_loadFile_records now interval (listing.files dir) (dir, {})
  have hfind : ∀ event subject,
      (Problems.load ps.dir listing interval now).records.find event subject =
        (ps.records.find event subject).filter fun p => !p.prunable now interval := by
    intro event subject
    rw [hrecords]
    cases hp : (ps.records.find event subject).filter fun p => !p.prunable now interval with
    | none =>
      rw [find_stored_other]
      · simp [Records.find]
      · rintro q hq ⟨rfl, rfl⟩
        obtain ⟨hfound, hneeded⟩ := (hkept q).mp hq
        rw [hfound, Option.filter_some, hneeded] at hp
        cases hp
    | some p =>
      obtain ⟨hfound, hneeded⟩ := Option.filter_eq_some_iff.mp hp
      obtain ⟨rfl, rfl⟩ := hmirrors.keyed _ _ _ hfound
      refine find_stored ((hkept p).mpr ⟨hfound, by simpa using hneeded⟩) ?_
      rintro q hq ⟨hevent, hsubject⟩
      have hother := ((hkept q).mp hq).1
      rw [hevent, hsubject, hfound] at hother
      exact (Option.some.inj hother).symm
  have hneeded : ∀ e s p, (Problems.load ps.dir listing interval now).records.find e s = some p →
      ps.records.find e s = some p ∧ p.prunable now interval = false := by
    intro e s p hp
    rw [hfind] at hp
    obtain ⟨hfound, hneed⟩ := Option.filter_eq_some_iff.mp hp
    exact ⟨hfound, by simpa using hneed⟩
  have hfiles : ∀ name body,
      ((listing.files dir).foldl (loadFile now interval) (dir, {})).1[name]? = some body ↔
        dir[name]? = some body ∧ ¬Drops now interval (name, body) := by
    intro name body
    rw [foldl_loadFile_dir]
    refine and_congr_right fun hbody => ?_
    constructor
    · intro hall hdrops
      exact hall (name, body) ((hlisted name body).mpr hbody) ⟨rfl, hdrops⟩
    · rintro hstays ⟨_, body'⟩ hmem ⟨rfl, hdrops⟩
      rw [hlisted, hbody] at hmem
      cases hmem
      exact hstays hdrops
  refine ⟨⟨((listing.files dir).foldl (loadFile now interval) (dir, {})).1, by rw [hdir]; rfl,
    ⟨?_, ?_, ?_, ?_⟩⟩, hfind⟩
  · intro e s p hp
    exact hmirrors.keyed e s p (hneeded e s p hp).1
  · intro e s p hp
    exact hmirrors.within e s p (hneeded e s p hp).1
  · intro e s p hp
    obtain ⟨hfound, hneed⟩ := hneeded e s p hp
    refine (hfiles _ _).mpr ⟨hmirrors.written e s p hfound, ?_⟩
    rintro ⟨_, q, hq, hprune⟩
    cases hq
    rw [hneed] at hprune
    cases hprune
  · intro name body hbody hstate
    obtain ⟨hold, hstays⟩ := (hfiles name body).mp hbody
    obtain ⟨p, rfl, hname, hfound⟩ := hmirrors.known name body hold hstate
    refine ⟨p, rfl, hname, ?_⟩
    rw [hfind, hfound, Option.filter_some, if_pos]
    by_contra hprune
    exact hstays ⟨hstate, p, rfl, by simpa using hprune⟩

end Kerbridge.Notify

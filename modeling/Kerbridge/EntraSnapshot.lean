import Kerbridge.EntraSync
import Kerbridge.Runs

/-!
# What a complete snapshot was built from

A complete snapshot should be the fold of one full read and of the delta reads
that followed it, each started where the one before it ended. The log below
records the reads a source completed; it is compared with the shadow at the end
of every cycle, over whole runs of cycles.
-/

namespace Kerbridge.EntraSnapshot

open UnicodeText DirectorySource EntraShadow GraphClient EntraSync Runs

/-- One read of both streams that came to its end, with where it started. -/
structure CompletedRead where
  usersCursor : Option String
  groupsCursor : Option String
  users : List RawUser
  usersLink : Option String
  groups : List RawGroup
  groupsLink : Option String
  deriving DecidableEq

/-- A shadow patched by one read. -/
def merge (s : Shadow) (r : CompletedRead) : Shadow :=
  (s.applyUsers r.users).applyGroups r.groups

/-- The fold of the reads from an empty shadow. The latest read stands first. -/
def replay : List CompletedRead → Shadow
  | [] => {}
  | r :: earlier => merge (replay earlier) r

/-- One full read followed by delta reads, the latest first: each delta started
at the links the read before it returned. -/
inductive Chain : List CompletedRead → Prop
  | full {r : CompletedRead} (users : r.usersCursor = none) (groups : r.groupsCursor = none) :
      Chain [r]
  | delta {r p : CompletedRead} {earlier : List CompletedRead} (before : Chain (p :: earlier))
      (users : r.usersCursor = p.usersLink) (groups : r.groupsCursor = p.groupsLink)
      (usersLink : p.usersLink ≠ none) (groupsLink : p.groupsLink ≠ none) :
      Chain (r :: p :: earlier)

/-- A chain is never empty. -/
theorem Chain.ne_nil {chain : List CompletedRead} (h : Chain chain) : chain ≠ [] := by
  cases h <;> simp

/-- A source patched by a read stands at the links the read returned. -/
def patched (s : EntraSource) (r : CompletedRead) : EntraSource :=
  s.accept r.users r.usersLink r.groups r.groupsLink

/-- A source and the reads it has completed, the latest first. -/
structure Tracked where
  source : EntraSource
  log : List CompletedRead := []

/-- The stored cursors and the shadow agree between two cycles: either nothing is
stored and the shadow is empty, or both cursors are the links of the last read
of a chain and the shadow is what the chain folds to. -/
def BoundarySound (t : Tracked) : Prop :=
  (t.source.usersCursor = none ∧ t.source.groupsCursor = none ∧ t.source.shadow = {}) ∨
    ∃ r earlier, r :: earlier <+: t.log ∧ Chain (r :: earlier) ∧
      t.source.shadow = replay (r :: earlier) ∧
      t.source.usersCursor = r.usersLink ∧ r.usersLink ≠ none ∧
      t.source.groupsCursor = r.groupsLink ∧ r.groupsLink ≠ none

/-- Where the stored cursors agree with the shadow, a missing one means an empty shadow. -/
theorem BoundarySound.fresh {t : Tracked} (h : BoundarySound t)
    (hnone : t.source.usersCursor = none ∨ t.source.groupsCursor = none) :
    t.source.shadow = {} := by
  obtain ⟨_, _, hs⟩ | ⟨r, earlier, _, _, _, hu, hul, hg, hgl⟩ := h
  · exact hs
  · rcases hnone with hn | hn
    · exact absurd (hu ▸ hn) hul
    · exact absurd (hg ▸ hn) hgl

/-- A whole read from the stored cursors extends the chain the shadow folds. -/
theorem BoundarySound.extend {t : Tracked} (h : BoundarySound t) {r : CompletedRead}
    (hu : r.usersCursor = t.source.usersCursor) (hg : r.groupsCursor = t.source.groupsCursor) :
    ∃ earlier, r :: earlier <+: r :: t.log ∧ Chain (r :: earlier) ∧
      (patched t.source r).shadow = replay (r :: earlier) := by
  obtain ⟨hun, hgn, hs⟩ | ⟨p, earlier, hp, hc, hs, hpu, hpul, hpg, hpgl⟩ := h
  · refine ⟨[], by simp, .full (hu.trans hun) (hg.trans hgn), ?_⟩
    simp [patched, EntraSource.accept, replay, merge, hs]
  · refine ⟨p :: earlier, ?_, .delta hc (hu.trans hpu) (hg.trans hpg) hpul hpgl, ?_⟩
    · simpa using hp
    · simp [patched, EntraSource.accept, replay, merge, hs]

/-- A whole read without cursors into an emptied shadow starts a chain. -/
theorem chain_of_resync {s : EntraSource} {r : CompletedRead} (hu : r.usersCursor = none)
    (hg : r.groupsCursor = none) :
    Chain [r] ∧ (patched { s with shadow := {} } r).shadow = replay [r] :=
  ⟨.full hu hg, rfl⟩

section Log

variable [Libraries]

/-- What a pass over both streams answers, as the read it completed. -/
def completed (usersCursor groupsCursor : Option String) (a : Attempt) : Option CompletedRead :=
  match readBoth usersCursor groupsCursor a with
  | .ok (.complete users usersLink, .complete groups groupsLink) =>
    some ⟨usersCursor, groupsCursor, users, usersLink, groups, groupsLink⟩
  | _ => none

/-- Whether a pass over both streams meets a refused cursor. -/
def cursorRefused (usersCursor groupsCursor : Option String) (a : Attempt) : Bool :=
  match readBoth usersCursor groupsCursor a with
  | .ok (users, groups) => refused users || refused groups
  | .error _ => false

/-- Whether a cycle comes to read the streams at all. -/
def reads (s : EntraSource) (c : Cycle) : Bool :=
  match s.credential c.credential, c.client, c.token with
  | .ok (some _), .ok (), .ok () => true
  | _, _, _ => false

/-- The read a cycle completes, if any. -/
def logged (s : EntraSource) (c : Cycle) : Option CompletedRead :=
  if reads s c then
    if cursorRefused s.usersCursor s.groupsCursor c.first then completed none none c.second
    else completed s.usersCursor s.groupsCursor c.first
  else none

/-- A completed read remembers the cursors it started from. -/
theorem completed_cursors {usersCursor groupsCursor : Option String} {a : Attempt}
    {r : CompletedRead} (h : completed usersCursor groupsCursor a = some r) :
    r.usersCursor = usersCursor ∧ r.groupsCursor = groupsCursor := by
  unfold completed at h
  split at h
  · cases h
    exact ⟨rfl, rfl⟩
  · cases h

/-- A pass that completes its read meets no refused cursor. -/
theorem cursorRefused_of_completed {usersCursor groupsCursor : Option String} {a : Attempt}
    {r : CompletedRead} (h : completed usersCursor groupsCursor a = some r) :
    cursorRefused usersCursor groupsCursor a = false := by
  unfold completed at h
  split at h
  · rename_i hread
    simp [cursorRefused, hread, refused]
  · cases h

variable [UnicodeTables]

/-- A pass that completes its read patches the shadow with it. -/
theorem pass_of_completed {s : EntraSource} {usersCursor groupsCursor : Option String}
    {a : Attempt} {r : CompletedRead} (h : completed usersCursor groupsCursor a = some r) :
    s.pass usersCursor groupsCursor a =
      .ended (patched s r) (.ok (.complete (patched s r).snapshot)) := by
  unfold completed at h
  split at h
  · rename_i hread
    cases h
    simp [EntraSource.pass, hread, patched]
  · cases h

/-- A pass that meets a refused cursor asks for another one. -/
theorem pass_of_refused {s : EntraSource} {usersCursor groupsCursor : Option String}
    {a : Attempt} (h : cursorRefused usersCursor groupsCursor a = true) :
    ∃ stalled, s.pass usersCursor groupsCursor a = .refused stalled := by
  unfold cursorRefused at h
  split at h
  · rename_i users groups hread
    refine ⟨isStalled users || isStalled groups, ?_⟩
    unfold EntraSource.pass
    rw [hread]
    cases users <;> cases groups <;> simp_all [refused]
  · cases h

/-- Any other pass leaves the source as it was and reports a failure. -/
theorem pass_of_neither {s : EntraSource} {usersCursor groupsCursor : Option String}
    {a : Attempt} (hc : completed usersCursor groupsCursor a = none)
    (hr : cursorRefused usersCursor groupsCursor a = false) :
    ∃ e, s.pass usersCursor groupsCursor a = .ended s (.error e) := by
  unfold EntraSource.pass
  cases hread : readBoth usersCursor groupsCursor a with
  | error fault => exact ⟨_, rfl⟩
  | ok both =>
    obtain ⟨users, groups⟩ := both
    cases users <;> cases groups <;> simp_all [completed, cursorRefused, refused]

/-- What one cycle can do to the source, and what it reports. -/
inductive CycleStep (s : EntraSource) (c : Cycle) : EntraSource → Option CompletedRead →
    Except SourceError Progress → Prop
  /-- Nothing was read, or the reading failed without a refused cursor. -/
  | unread {result : Except SourceError Progress}
      (incomplete : ∀ snap, result ≠ .ok (.complete snap)) : CycleStep s c s none result
  /-- The stored cursors led to a whole read. -/
  | whole {r : CompletedRead}
      (read : completed s.usersCursor s.groupsCursor c.first = some r) :
      CycleStep s c (patched s r) (some r) (.ok (.complete (patched s r).snapshot))
  /-- A cursor was refused and the retry was whole. -/
  | resynced {r : CompletedRead}
      (refusal : cursorRefused s.usersCursor s.groupsCursor c.first = true)
      (read : completed none none c.second = some r) :
      CycleStep s c (patched { s with shadow := {} } r) (some r)
        (.ok (.complete (patched { s with shadow := {} } r).snapshot))
  /-- A cursor was refused and the retry failed. -/
  | emptied {result : Except SourceError Progress} (reading : reads s c = true)
      (refusal : cursorRefused s.usersCursor s.groupsCursor c.first = true)
      (read : completed none none c.second = none)
      (incomplete : ∀ snap, result ≠ .ok (.complete snap)) :
      CycleStep s c { s with shadow := {} } none result

/-- The read loop is one of the four steps, and completes the read it logs. -/
theorem readLoop_step {s : EntraSource} {c : Cycle} (hreads : reads s c = true) :
    CycleStep s c (s.readLoop c).1
      (if cursorRefused s.usersCursor s.groupsCursor c.first then completed none none c.second
        else completed s.usersCursor s.groupsCursor c.first)
      (s.readLoop c).2 := by
  unfold EntraSource.readLoop
  by_cases hr : cursorRefused s.usersCursor s.groupsCursor c.first = true
  · obtain ⟨stalled, hpass⟩ := pass_of_refused (s := s) hr
    rw [if_pos hr, hpass]
    dsimp only
    cases hread : completed none none c.second with
    | some r =>
      rw [pass_of_completed hread]
      exact .resynced hr hread
    | none =>
      by_cases hr' : cursorRefused none none c.second = true
      · obtain ⟨stalled', hpass'⟩ := pass_of_refused (s := { s with shadow := {} }) hr'
        rw [hpass']
        exact .emptied hreads hr hread (by simp)
      · obtain ⟨e, hpass'⟩ := pass_of_neither (s := { s with shadow := {} }) hread
          (Bool.eq_false_iff.mpr hr')
        rw [hpass']
        exact .emptied hreads hr hread (by simp)
  · rw [if_neg hr]
    cases hread : completed s.usersCursor s.groupsCursor c.first with
    | some r =>
      rw [pass_of_completed hread]
      exact .whole hread
    | none =>
      obtain ⟨e, hpass⟩ := pass_of_neither (s := s) hread (Bool.eq_false_iff.mpr hr)
      rw [hpass]
      exact .unread (by simp)

/-- A cycle is one of the four steps, and completes the read it logs. -/
theorem advance_step (s : EntraSource) (c : Cycle) :
    CycleStep s c (s.advance c).1 (logged s c) (s.advance c).2 := by
  by_cases hreads : reads s c = true
  · have hstep := readLoop_step hreads
    unfold reads at hreads
    split at hreads
    · rename_i secret hcred hclient htoken
      simpa [EntraSource.advance, EntraSource.read, logged, reads, hcred, hclient, htoken]
        using hstep
    · cases hreads
  · have hnone : logged s c = none := by simp [logged, hreads]
    rw [hnone]
    unfold reads at hreads
    unfold EntraSource.advance EntraSource.read
    cases hcred : s.credential c.credential with
    | error why => exact .unread (by simp)
    | ok secret =>
      cases secret with
      | none => exact .unread (by simp)
      | some secret =>
        cases hclient : c.client with
        | error why => exact .unread (by simp)
        | ok _ =>
          cases htoken : c.token with
          | error e => exact .unread (by simp)
          | ok _ => simp [hcred, hclient, htoken] at hreads

/-- A cycle that completes a read reports a complete snapshot. -/
theorem complete_of_logged {s : EntraSource} {c : Cycle} (h : (logged s c).isSome = true) :
    ∃ snap, (s.advance c).2 = .ok (.complete snap) := by
  have hstep := advance_step s c
  generalize s.advance c = res at hstep
  generalize logged s c = log at hstep h
  obtain ⟨s', result⟩ := res
  cases hstep with
  | unread => cases h
  | whole => exact ⟨_, rfl⟩
  | resynced => exact ⟨_, rfl⟩
  | emptied => cases h

/-- One cycle of a tracked source. -/
def Tracked.next (t : Tracked) (c : Cycle) : Tracked where
  source := (t.source.advance c).1
  log := (logged t.source c).toList ++ t.log

/-- What is asked of a cycle and of the state it starts from. -/
structure Sound (t : Tracked) (c : Cycle) : Prop where
  /-- The stored cursors stand at what the shadow holds. -/
  boundary : BoundarySound t
  /-- A read without a cursor starts from an empty shadow. -/
  fresh : t.source.usersCursor = none ∨ t.source.groupsCursor = none → t.source.shadow = {}
  /-- A complete snapshot is taken of the fold of a chain ending in this cycle's read. -/
  snapshot : ∀ snap, (t.source.advance c).2 = .ok (.complete snap) →
    snap = (t.source.advance c).1.snapshot ∧
      ∃ chain, chain <+: (t.next c).log ∧ Chain chain ∧
        (t.source.advance c).1.shadow = replay chain

/-- The answers a cycle must get: a cursor refused over a shadow that holds
anything is followed by a whole retry, and a whole read ends in two delta links. -/
def Met (s : EntraSource) (c : Cycle) : Prop :=
  (reads s c = true → cursorRefused s.usersCursor s.groupsCursor c.first = true →
      s.shadow ≠ {} → (completed none none c.second).isSome = true) ∧
    ∀ r ∈ logged s c, r.usersLink ≠ none ∧ r.groupsLink ≠ none

instance (s : EntraSource) (c : Cycle) : Decidable (Met s c) :=
  inferInstanceAs (Decidable ((_ → _ → _ → _) ∧ ∀ r ∈ logged s c, _))

/-- A cycle with the answers it must get is sound, and leaves a sound boundary. -/
theorem sound_step (t : Tracked) (c : Cycle) (hb : BoundarySound t) (hm : Met t.source c) :
    Sound t c ∧ BoundarySound (t.next c) := by
  obtain ⟨hretry, hlinks⟩ := hm
  have hstep := advance_step t.source c
  suffices hrest : (∀ snap, (t.source.advance c).2 = .ok (.complete snap) →
      snap = (t.source.advance c).1.snapshot ∧
        ∃ chain, chain <+: (t.next c).log ∧ Chain chain ∧
          (t.source.advance c).1.shadow = replay chain) ∧ BoundarySound (t.next c) from
    ⟨⟨hb, hb.fresh, hrest.1⟩, hrest.2⟩
  unfold Tracked.next
  generalize hres : t.source.advance c = res at hstep
  obtain ⟨s', result⟩ := res
  generalize hlog : logged t.source c = log at hstep hlinks
  cases hstep with
  | unread incomplete =>
    refine ⟨fun snap h => absurd h (incomplete snap), ?_⟩
    simpa [BoundarySound] using hb
  | @whole r read =>
    obtain ⟨hu, hg⟩ := completed_cursors read
    obtain ⟨earlier, hp, hc, hs⟩ := hb.extend hu hg
    obtain ⟨hul, hgl⟩ := hlinks r rfl
    refine ⟨fun snap h => ⟨by cases h; rfl, r :: earlier, hp, hc, hs⟩, ?_⟩
    exact .inr ⟨r, earlier, hp, hc, hs, rfl, hul, rfl, hgl⟩
  | @resynced r refusal read =>
    obtain ⟨hu, hg⟩ := completed_cursors read
    obtain ⟨hc, hs⟩ := chain_of_resync (s := t.source) hu hg
    obtain ⟨hul, hgl⟩ := hlinks r rfl
    have hp : [r] <+: r :: t.log := by simp
    refine ⟨fun snap h => ⟨by cases h; rfl, [r], hp, hc, hs⟩, ?_⟩
    exact .inr ⟨r, [], hp, hc, hs, rfl, hul, rfl, hgl⟩
  | emptied reading refusal read incomplete =>
    refine ⟨fun snap h => absurd h (incomplete snap), ?_⟩
    have hempty : t.source.shadow = {} := by
      by_contra hne
      have hsome := hretry reading refusal hne
      rw [read] at hsome
      cases hsome
    have hsame : { t.source with shadow := {} } = t.source := by rw [← hempty]
    rw [hsame]
    simpa [BoundarySound] using hb

/-- Over every run of a new source whose cycles all get the answers they must,
every snapshot is the fold of a full read and of its unbroken chain of deltas. -/
theorem snapshots_sound (settings : Settings) (source : String) (cycles : List Cycle)
    (h : Everywhere Tracked.next (fun t c => Met t.source c) ⟨.new settings source, []⟩ cycles) :
    Everywhere Tracked.next Sound ⟨.new settings source, []⟩ cycles ∧
      BoundarySound (run Tracked.next ⟨.new settings source, []⟩ cycles) := by
  have hstart : BoundarySound ⟨.new settings source, []⟩ := .inl ⟨rfl, rfl, rfl⟩
  exact everywhere_of_invariant sound_step hstart h

end Log

/-- A network on which every URL is the service's own, and a body names its page:
the first is a full read of one user and one group, the second a later delta. -/
@[reducible] def sampleLibraries : Libraries where
  parse _ := some ⟨"https", some "graph.microsoft.com", none, "/v1.0", none, []⟩
  withQuery url _ := url
  lossy _ := ""
  usersPage
    | [1] => .ok ⟨none, some "users-1", [{ id := "alice", userType := some "Member" }]⟩
    | _ => .ok ⟨none, some "users-2", [{ id := "bob", userType := some "Member" }]⟩
  groupsPage
    | [1] => .ok ⟨none, some "groups-1", [{ id := "staff" }]⟩
    | _ => .ok ⟨none, some "groups-2", []⟩

/-- A page of the sample network. -/
def samplePage (n : UInt8) : List Exchange := [.answered { status := 200, body := [n] }]

/-- A refused cursor of the sample network. -/
def sampleGone : List Exchange := [.answered { status := 410, location := some "fresh" }]

/-- A full read. -/
def sampleFull : Cycle := { credential := .ok (some "secret"), first := ⟨samplePage 1, samplePage 1⟩ }

/-- A delta read. -/
def sampleDelta : Cycle :=
  { credential := .ok (some "secret"), first := ⟨samplePage 2, samplePage 2⟩ }

/-- A refused cursor, with the retry the network allows. -/
def sampleResync (retry : Attempt) : Cycle :=
  { credential := .ok (some "secret"), first := ⟨sampleGone, samplePage 2⟩, second := retry }

/-- The configuration of the sample runs. -/
def sampleSettings : Settings := { syncCredentialFile := "/run/secret", admissionGroupId := "staff" }

/-- A run with a refused cursor, its whole retry and a delta behind it is sound. -/
theorem snapshots_sound_resync :
    letI := sampleLibraries
    letI := asciiTables
    Everywhere Tracked.next Sound ⟨.new sampleSettings "entra", []⟩
        [sampleFull, sampleResync ⟨samplePage 1, samplePage 1⟩, sampleDelta] ∧
      BoundarySound (run Tracked.next ⟨.new sampleSettings "entra", []⟩
        [sampleFull, sampleResync ⟨samplePage 1, samplePage 1⟩, sampleDelta]) :=
  @snapshots_sound sampleLibraries asciiTables sampleSettings "entra" _ (by decide)

/-- A refused cursor whose retry is lost to the network. -/
def sampleLost : Cycle := sampleResync ⟨[.lost "connection reset"], []⟩

/-- The source after a full read and a lost retry. -/
def sampleEmptied : Tracked :=
  letI := sampleLibraries
  letI := asciiTables
  run Tracked.next ⟨.new sampleSettings "entra", []⟩ [sampleFull, sampleLost]

/-- The reads the run with the lost retry completes. -/
def sampleLostLog : List CompletedRead :=
  [⟨some "users-1", some "groups-1", [{ id := "bob", userType := some "Member" }],
      some "users-2", [], some "groups-2"⟩,
    ⟨none, none, [{ id := "alice", userType := some "Member" }], some "users-1",
      [{ id := "staff" }], some "groups-1"⟩]

/-- The delta after a lost retry is applied to the emptied shadow and reported
whole: everyone the delta does not name is missing from the snapshot. -/
theorem snapshots_unsound_lost :
    ¬ ∀ (_ : Libraries) (_ : UnicodeTables) (settings : Settings) (source : String)
      (cycles : List Cycle),
      Everywhere Tracked.next Sound ⟨.new settings source, []⟩ cycles ∧
        BoundarySound (run Tracked.next ⟨.new settings source, []⟩ cycles) := by
  intro h
  have hthird : @Sound sampleLibraries asciiTables sampleEmptied sampleDelta :=
    (h sampleLibraries asciiTables sampleSettings "entra"
      [sampleFull, sampleLost, sampleDelta]).1.2.2.1
  have hlog : (@Tracked.next sampleLibraries asciiTables sampleEmptied sampleDelta).log =
      sampleLostLog := by decide
  obtain ⟨snap, hsnap⟩ := @complete_of_logged sampleLibraries asciiTables sampleEmptied.source
    sampleDelta (by decide)
  obtain ⟨_, chain, hprefix, hchain, hshadow⟩ :=
    @Sound.snapshot sampleLibraries asciiTables _ _ hthird snap hsnap
  rw [hlog] at hprefix
  cases hchain with
  | full users groups =>
    obtain ⟨rest, hrest⟩ := hprefix
    cases hrest
    cases users
  | delta before users groups usersLink groupsLink =>
    cases before with
    | full =>
      obtain ⟨rest, hrest⟩ := hprefix
      cases hrest
      exact absurd hshadow (by decide)
    | delta =>
      obtain ⟨rest, hrest⟩ := hprefix
      cases hrest

end Kerbridge.EntraSnapshot

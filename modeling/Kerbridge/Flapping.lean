import Kerbridge.Notifier
import Kerbridge.ProblemLedger

/-!
# A condition that comes and goes

A run of sends and clears, seen at one persisting condition. Its announcements are at
least the repeat interval apart, whatever happens. Its recoveries are posted for every
clear of the open condition, and no stamp holds them off.
-/

namespace Kerbridge.Notify

open Std (ExtTreeMap)
open Runs

/-- What a caller asks of the notifier. -/
inductive Told where
  | send (ev : Event)
  | resolve (event : String)
  | resolveSubject (event subject : String)

/-- A call, and when it is made. -/
structure Asked where
  time : ℕ
  told : Told

/-- What a call posts and leaves. -/
def Notifier.ask (n : Notifier) (c : Asked) : List Posted × Notifier :=
  match c.told with
  | .send ev => n.send ev c.time
  | .resolve event => n.resolve event c.time
  | .resolveSubject event subject => n.resolveSubject event subject c.time

/-- What a run of calls posts. -/
def Notifier.posts : Notifier → List Asked → List Posted
  | _, [] => []
  | n, c :: calls => (n.ask c).1 ++ (n.ask c).2.posts calls

/-- The posts on one condition. -/
def postsOn (event subject : String) (posts : List Posted) : List Posted :=
  posts.filter fun p => decide (p.event = event ∧ p.subject = subject)

/-- Two posts are at least an interval apart. -/
def Apart (interval : ℕ) (p q : Posted) : Prop := interval ≤ q.time - p.time

/-- Every recovery comes after an announcement that came after the recovery before it; the
first one may rely on an announcement before all of the posts. -/
def Heralded : Bool → List Posted → Prop
  | _, [] => True
  | announced, p :: posts =>
    if p.isRecovery then announced = true ∧ Heralded false posts else Heralded true posts

/-- The posts on a condition do not flood the channel. -/
structure Unflooded (interval : ℕ) (posts : List Posted) : Prop where
  announcements : (posts.filter fun p => !p.isRecovery).Pairwise (Apart interval)
  recoveries : (posts.filter Posted.isRecovery).Pairwise (Apart interval)
  heralded : Heralded false posts

section Calls

variable {n : Notifier} {event subject : String}

/-- Whether a condition is open, and was last raised loud enough. -/
def Notifier.loudOpen (n : Notifier) (event subject : String) : Bool :=
  (n.problems.records.find event subject).any fun p => p.isOpen && n.deliverable p.severity

/-- Whether a call announces a condition. -/
def Notifier.announces (n : Notifier) (event subject : String) (c : Asked) : Bool :=
  match c.told with
  | .send ev => decide (ev.event = event ∧ ev.subject = subject) &&
      due (n.problems.records.find ev.event ev.subject) ev c.time n.repeatInterval
        (n.deliverable ev.severity)
  | _ => false

/-- Whether a call clears a condition that is open and loud. -/
def Notifier.clears (n : Notifier) (event subject : String) (c : Asked) : Bool :=
  match c.told with
  | .send _ => false
  | .resolve resolved => decide (resolved = event) && n.loudOpen event subject
  | .resolveSubject resolved one =>
    decide (resolved = event ∧ one = subject) && n.loudOpen event subject

/-- The entries of a list under one key, of which there is at most one. -/
theorem filter_key {β : Type} {l : List (String × β)}
    (hdistinct : l.Pairwise fun a b => a.1 ≠ b.1) {k : String} {v : Option β}
    (hv : ∀ x, (k, x) ∈ l ↔ v = some x) :
    l.filter (fun e => decide (e.1 = k)) = v.toList.map fun x => (k, x) := by
  induction l generalizing v with
  | nil =>
    cases v with
    | none => rfl
    | some x => exact absurd ((hv x).mpr rfl) List.not_mem_nil
  | cons e l ih =>
    obtain ⟨hfirst, hrest⟩ := List.pairwise_cons.mp hdistinct
    obtain ⟨key, x⟩ := e
    by_cases hkey : key = k
    · subst hkey
      have hx : v = some x := (hv x).mp List.mem_cons_self
      subst hx
      have hnone : ∀ y, (key, y) ∈ l ↔ (none : Option β) = some y := by
        intro y
        refine iff_of_false ?_ (fun h => nomatch h)
        intro hy
        exact hfirst (key, y) hy rfl
      rw [List.filter_cons_of_pos (by simp), ih hrest hnone]
      rfl
    · rw [List.filter_cons_of_neg (by simpa using hkey)]
      refine ih hrest fun y => ?_
      rw [← hv y, List.mem_cons]
      refine (or_iff_right ?_).symm
      rintro ⟨rfl, _⟩
      exact hkey rfl

/-- The entry of a map under one key. -/
theorem toList_key {β : Type} (m : ExtTreeMap String β) (k : String) :
    m.toList.filter (fun e => decide (e.1 = k)) = m[k]?.toList.map fun x => (k, x) := by
  refine filter_key ?_ fun x => ExtTreeMap.mem_toList_iff_getElem?_eq_some
  refine ExtTreeMap.distinct_keys_toList.imp ?_
  intro a b hne hsame
  exact hne (by rw [hsame]; simp)

/-- No event is shown with the icon of a recovery. -/
theorem severityIcon_ne (severity : Severity) : severityIcon severity ≠ recoveredIcon := by
  cases severity
  all_goals decide

/-- What is posted on a condition when an event is sent. -/
theorem posts_send (n : Notifier) (ev : Event) (now : ℕ) :
    (n.announces event subject ⟨now, .send ev⟩ = true → ∃ p,
      postsOn event subject (n.send ev now).1 = [p] ∧ p.isRecovery = false ∧ p.time = now) ∧
    (n.announces event subject ⟨now, .send ev⟩ = false →
      postsOn event subject (n.send ev now).1 = []) := by
  have hposts : (n.send ev now).1 = if n.channel && due (n.problems.records.find ev.event
      ev.subject) ev now n.repeatInterval (n.deliverable ev.severity) then
        [⟨ev.event, ev.subject, ev.severity, ev.message, aggregate ev.detail
          (n.problems.raise ev n.component now n.repeatInterval
            (n.deliverable ev.severity)).2.openSummary, severityIcon ev.severity, now⟩]
      else [] := rfl
  have hchannel : due (n.problems.records.find ev.event ev.subject) ev now n.repeatInterval
      (n.deliverable ev.severity) = true → n.channel = true := by
    intro hdue
    have hdeliverable := (due_iff.mp hdue).1
    unfold Notifier.deliverable at hdeliverable
    rw [Bool.and_eq_true] at hdeliverable
    exact hdeliverable.1
  unfold Notifier.announces
  rw [hposts]
  constructor
  · intro hann
    rw [Bool.and_eq_true] at hann
    obtain ⟨hkey, hdue⟩ := hann
    rw [hchannel hdue, hdue]
    refine ⟨_, List.filter_cons_of_pos hkey, ?_, rfl⟩
    exact decide_eq_false (severityIcon_ne ev.severity)
  · intro hann
    rw [Bool.and_eq_false_iff] at hann
    split
    · rename_i hposted
      rw [Bool.and_eq_true] at hposted
      rcases hann with hkey | hdue
      · exact List.filter_cons_of_neg (by rw [hkey]; exact Bool.false_ne_true)
      · dsimp only at hdue
        rw [hposted.2] at hdue
        cases hdue
    · rfl

/-- What is posted on a condition for the records that were closed. -/
theorem posts_recovered (n : Notifier) (summary : String) (now : ℕ) (closed : List Problem) :
    postsOn event subject (closed.filterMap (n.recovery event summary now)) =
      (closed.filter fun p => decide (p.subject = subject)).filterMap
        (n.recovery event summary now) := by
  unfold postsOn
  rw [List.filter_filterMap, List.filterMap_filter]
  refine List.filterMap_congr fun p _ => ?_
  unfold Notifier.recovery
  split
  · rw [Option.filter_some]
    simp
  · simp

/-- The recovery of a condition that was open, if it is loud enough. -/
theorem recovery_of_closed (n : Notifier) (summary : String) (now : ℕ) (p : Problem) :
    (n.deliverable p.severity = true → ∃ q, n.recovery event summary now p.close = some q ∧
      q.isRecovery = true ∧ q.time = now) ∧
    (n.deliverable p.severity = false → n.recovery event summary now p.close = none) := by
  unfold Notifier.recovery
  constructor
  · intro hloud
    refine ⟨_, if_pos hloud, ?_, rfl⟩
    exact decide_eq_true rfl
  · intro hquiet
    refine if_neg ?_
    change ¬n.deliverable p.severity = true
    rw [hquiet]
    exact Bool.false_ne_true

/-- The records of an event that are closed when it is resolved, of one subject. -/
theorem resolved_subject (hkeyed : Keyed n.problems.records) (event subject : String) :
    (n.problems.resolve event).1.filter (fun p => decide (p.subject = subject)) =
      ((n.problems.records.find event subject).filter Problem.isOpen).toList.map
        Problem.close := by
  unfold Problems.resolve
  cases hsubjects : n.problems.records[event]? with
  | none =>
    unfold Records.find
    rw [hsubjects]
    rfl
  | some subjects =>
    dsimp only
    have hfind : n.problems.records.find event subject = subjects[subject]? := by
      unfold Records.find
      rw [hsubjects, Option.bind_some]
    have hkey : ∀ e ∈ subjects.toList, e.2.subject = e.1 := by
      intro e he
      have hget : n.problems.records.find event e.1 = some e.2 := by
        unfold Records.find
        rw [hsubjects, Option.bind_some]
        exact ExtTreeMap.mem_toList_iff_getElem?_eq_some.mp he
      exact (hkeyed _ _ _ hget).2
    have hswap : (subjects.toList.filter fun e => e.2.isOpen).filter
          (fun e => decide (e.2.close.subject = subject)) =
        (subjects.toList.filter fun e => decide (e.1 = subject)).filter fun e => e.2.isOpen := by
      rw [List.filter_filter, List.filter_filter]
      refine List.filter_congr fun e he => ?_
      have hsame : e.2.close.subject = e.1 := hkey e he
      rw [hsame, Bool.and_comm]
    rw [List.filter_map, hfind]
    change List.map _ (List.filter
      (fun e : String × Problem => decide (e.2.close.subject = subject)) _) = _
    rw [hswap, toList_key]
    cases subjects[subject]? with
    | none => rfl
    | some p =>
      rw [Option.toList_some, List.map_singleton, List.filter_singleton, Option.filter_some]
      cases p.isOpen with
      | true => rfl
      | false => rfl

/-- What is posted on a condition when its record is closed. -/
theorem posts_closed (n : Notifier) (summary : String) (now : ℕ) (found : Option Problem) :
    ((found.any fun p => p.isOpen && n.deliverable p.severity) = true → ∃ q,
      ((found.filter Problem.isOpen).toList.map Problem.close).filterMap
        (n.recovery event summary now) = [q] ∧ q.isRecovery = true ∧ q.time = now) ∧
    ((found.any fun p => p.isOpen && n.deliverable p.severity) = false →
      ((found.filter Problem.isOpen).toList.map Problem.close).filterMap
        (n.recovery event summary now) = []) := by
  cases found with
  | none => exact ⟨fun h => (nomatch h), fun _ => rfl⟩
  | some p =>
    rw [Option.any_some, Option.filter_some]
    obtain ⟨hposted, hsilent⟩ := @recovery_of_closed event n summary now p
    cases p.isOpen with
    | false => exact ⟨fun h => (nomatch h), fun _ => rfl⟩
    | true =>
      rw [Bool.true_and, if_pos rfl, Option.toList_some, List.map_singleton, List.filterMap_cons]
      constructor
      · intro hloud
        obtain ⟨q, hq, hrest⟩ := hposted hloud
        rw [hq]
        exact ⟨q, rfl, hrest⟩
      · intro hquiet
        rw [hsilent hquiet]
        rfl

/-- What is posted on a condition when its event is resolved. -/
theorem posts_resolve (hkeyed : Keyed n.problems.records) (resolved : String) (now : ℕ) :
    (n.clears event subject ⟨now, .resolve resolved⟩ = true → ∃ p,
      postsOn event subject (n.resolve resolved now).1 = [p] ∧ p.isRecovery = true ∧
        p.time = now) ∧
    (n.clears event subject ⟨now, .resolve resolved⟩ = false →
      postsOn event subject (n.resolve resolved now).1 = []) := by
  by_cases hevent : resolved = event
  · subst hevent
    have hposts : postsOn resolved subject (n.resolve resolved now).1 =
        (((n.problems.records.find resolved subject).filter Problem.isOpen).toList.map
          Problem.close).filterMap (n.recovery resolved
            (n.problems.resolve resolved).2.openSummary now) := by
      rw [← resolved_subject hkeyed]
      exact posts_recovered n _ now _
    have hclears : n.clears resolved subject ⟨now, .resolve resolved⟩ =
        n.loudOpen resolved subject := by simp [Notifier.clears]
    rw [hposts, hclears]
    exact posts_closed n _ now _
  · have hclears : n.clears event subject ⟨now, .resolve resolved⟩ = false := by
      simp [Notifier.clears, hevent]
    rw [hclears]
    refine ⟨fun h => (nomatch h), fun _ => ?_⟩
    refine List.filter_eq_nil_iff.mpr ?_
    intro q hq hkey
    obtain ⟨p, _, hp⟩ := List.mem_filterMap.mp hq
    unfold Notifier.recovery at hp
    split at hp
    · cases hp
      exact hevent (of_decide_eq_true hkey).1
    · cases hp

/-- What is posted on a condition when one subject is resolved. -/
theorem posts_resolveSubject (hkeyed : Keyed n.problems.records) (resolved one : String)
    (now : ℕ) :
    (n.clears event subject ⟨now, .resolveSubject resolved one⟩ = true → ∃ p,
      postsOn event subject (n.resolveSubject resolved one now).1 = [p] ∧ p.isRecovery = true ∧
        p.time = now) ∧
    (n.clears event subject ⟨now, .resolveSubject resolved one⟩ = false →
      postsOn event subject (n.resolveSubject resolved one now).1 = []) := by
  have hclosed : (n.problems.resolveOne resolved one).1 =
      ((n.problems.records.find resolved one).filter Problem.isOpen).map Problem.close := by
    unfold Problems.resolveOne Records.find
    cases n.problems.records[resolved]? with
    | none => rfl
    | some subjects =>
      rw [Option.bind_some]
      dsimp only
      cases subjects[one]? with
      | none => rfl
      | some p =>
        rw [Option.filter_some]
        dsimp only
        split
        · rfl
        · rfl
  by_cases hkey : resolved = event ∧ one = subject
  · obtain ⟨rfl, rfl⟩ := hkey
    have hsubject : ∀ p, (n.problems.resolveOne resolved one).1 = some p → p.subject = one := by
      intro p hp
      rw [hclosed] at hp
      obtain ⟨q, hq, rfl⟩ := Option.map_eq_some_iff.mp hp
      exact (hkeyed _ _ _ (Option.filter_eq_some_iff.mp hq).1).2
    have hposts : postsOn resolved one (n.resolveSubject resolved one now).1 =
        (((n.problems.records.find resolved one).filter Problem.isOpen).toList.map
          Problem.close).filterMap (n.recovery resolved
            (n.problems.resolveOne resolved one).2.openSummary now) := by
      have hall := @posts_recovered resolved one n
        (n.problems.resolveOne resolved one).2.openSummary now
        (n.problems.resolveOne resolved one).1.toList
      rw [List.filter_eq_self.mpr ?_] at hall
      · rw [← Option.toList_map, ← hclosed]
        exact hall
      · intro p hp
        exact decide_eq_true (hsubject p (Option.mem_toList.mp hp))
    have hclears : n.clears resolved one ⟨now, .resolveSubject resolved one⟩ =
        n.loudOpen resolved one := by simp [Notifier.clears]
    rw [hposts, hclears]
    exact posts_closed n _ now _
  · have hclears : n.clears event subject ⟨now, .resolveSubject resolved one⟩ = false := by
      unfold Notifier.clears
      dsimp only
      rw [decide_eq_false hkey, Bool.false_and]
    rw [hclears]
    refine ⟨fun h => (nomatch h), fun _ => ?_⟩
    refine List.filter_eq_nil_iff.mpr ?_
    intro q hq hposted
    obtain ⟨p, hp, hpost⟩ := List.mem_filterMap.mp hq
    have hclosedOne : (n.problems.resolveOne resolved one).1 = some p := Option.mem_toList.mp hp
    rw [hclosed] at hclosedOne
    obtain ⟨r, hr, rfl⟩ := Option.map_eq_some_iff.mp hclosedOne
    have hsubject : r.subject = one := (hkeyed _ _ _ (Option.filter_eq_some_iff.mp hr).1).2
    unfold Notifier.recovery at hpost
    split at hpost
    · cases hpost
      obtain ⟨hevent, hsame⟩ := of_decide_eq_true hposted
      exact hkey ⟨hevent, hsubject.symm.trans hsame⟩
    · cases hpost

/-- A call makes at most one post on a condition: an announcement, a recovery, or none. -/
theorem posts_ask (hkeyed : Keyed n.problems.records) (c : Asked) :
    (n.announces event subject c = true → ∃ p, postsOn event subject (n.ask c).1 = [p] ∧
      p.isRecovery = false ∧ p.time = c.time) ∧
    (n.clears event subject c = true → ∃ p, postsOn event subject (n.ask c).1 = [p] ∧
      p.isRecovery = true ∧ p.time = c.time) ∧
    (n.announces event subject c = false → n.clears event subject c = false →
      postsOn event subject (n.ask c).1 = []) := by
  obtain ⟨time, told⟩ := c
  cases told with
  | send ev =>
    obtain ⟨hposted, hsilent⟩ := posts_send n ev time
    exact ⟨hposted, fun h => (nomatch h), fun h _ => hsilent h⟩
  | resolve resolved =>
    obtain ⟨hposted, hsilent⟩ := posts_resolve hkeyed resolved time
    exact ⟨fun h => (nomatch h), hposted, fun _ h => hsilent h⟩
  | resolveSubject resolved one =>
    obtain ⟨hposted, hsilent⟩ := posts_resolveSubject hkeyed resolved one time
    exact ⟨fun h => (nomatch h), hposted, fun _ h => hsilent h⟩

/-- No call both announces and clears a condition. -/
theorem clears_of_announces {c : Asked} (h : n.announces event subject c = true) :
    n.clears event subject c = false := by
  obtain ⟨time, told⟩ := c
  cases told with
  | send ev => rfl
  | resolve resolved => cases h
  | resolveSubject resolved one => cases h

/-- Every call leaves the records under their own keys. -/
theorem keyed_ask (hkeyed : Keyed n.problems.records) (c : Asked) :
    Keyed (n.ask c).2.problems.records := by
  have hsettled : ∀ {found : Option Problem} {e s : String} {p : Problem},
      (∀ q, found = some q → q.event = e ∧ q.subject = s) → found.map Problem.settle = some p →
      p.event = e ∧ p.subject = s := by
    intro found e s p hfound hp
    obtain ⟨q, hq, rfl⟩ := Option.map_eq_some_iff.mp hp
    rw [(settle_key q).1, (settle_key q).2]
    exact hfound q hq
  obtain ⟨time, told⟩ := c
  cases told with
  | send ev => exact hkeyed.put _
  | resolve resolved =>
    intro e s p hp
    change (n.problems.resolve resolved).2.records.find e s = some p at hp
    rw [find_resolve hkeyed] at hp
    split at hp
    · exact hsettled (fun q hq => hkeyed e s q hq) hp
    · exact hkeyed e s p hp
  | resolveSubject resolved one =>
    intro e s p hp
    change (n.problems.resolveOne resolved one).2.records.find e s = some p at hp
    rw [find_resolveOne hkeyed] at hp
    split at hp
    · exact hsettled (fun q hq => hkeyed e s q hq) hp
    · exact hkeyed e s p hp

/-- What a call leaves of the stamp of a condition. -/
theorem stamp_ask (hkeyed : Keyed n.problems.records) (c : Asked) :
    stampAt (n.ask c).2.problems event subject =
      if n.announces event subject c = true then some c.time
      else stampAt n.problems event subject := by
  obtain ⟨time, told⟩ := c
  cases told with
  | send ev =>
    change stampAt (n.problems.raise ev n.component time n.repeatInterval
      (n.deliverable ev.severity)).2 event subject = _
    rw [(memory_raise _ _ _ _ _ _ _ _).1]
    by_cases hkey : ev.event = event ∧ ev.subject = subject
    · have hann : n.announces event subject ⟨time, .send ev⟩ = (n.problems.raise ev n.component
          time n.repeatInterval (n.deliverable ev.severity)).1 := by
        unfold Notifier.announces
        dsimp only
        rw [decide_eq_true hkey, Bool.true_and]
        rfl
      rw [if_pos hkey, hann]
    · have hann : n.announces event subject ⟨time, .send ev⟩ = false := by
        unfold Notifier.announces
        dsimp only
        rw [decide_eq_false hkey, Bool.false_and]
      rw [if_neg hkey, hann, if_neg Bool.false_ne_true]
  | resolve resolved => exact (memory_resolve hkeyed resolved event subject).1
  | resolveSubject resolved one => exact (memory_resolveOne hkeyed resolved one event subject).1

/-- No call changes the repeat interval. -/
theorem interval_ask (n : Notifier) (c : Asked) :
    (n.ask c).2.repeatInterval = n.repeatInterval := by
  obtain ⟨time, told⟩ := c
  cases told with
  | send ev => rfl
  | resolve resolved => rfl
  | resolveSubject resolved one => rfl

/-- The condition only ever persists: it is never sent as a countdown. -/
def Persists (event subject : String) (calls : List Asked) : Prop :=
  ∀ c ∈ calls, ∀ ev, c.told = .send ev → ev.event = event → ev.subject = subject →
    ev.repeats = .persisting

/-- A persisting condition is announced the interval after the last attempt at the earliest. -/
theorem spent_of_announces {c : Asked} {calls : List Asked} (hc : c ∈ calls)
    (hpersists : Persists event subject calls) (h : n.announces event subject c = true) :
    Spent n.repeatInterval c.time (stampAt n.problems event subject) := by
  obtain ⟨time, told⟩ := c
  cases told with
  | send ev =>
    unfold Notifier.announces at h
    rw [Bool.and_eq_true, decide_eq_true_iff] at h
    obtain ⟨⟨rfl, rfl⟩, hdue⟩ := h
    have hspent := (due_iff.mp hdue).2
    rw [hpersists _ hc ev rfl rfl rfl] at hspent
    exact hspent
  | resolve resolved => cases h
  | resolveSubject resolved one => cases h

/-- The announcements of a run. -/
def announcements (posts : List Posted) : List Posted := posts.filter fun p => !p.isRecovery

/-- The posts on a condition in a run, after its first call. -/
theorem postsOn_cons (n : Notifier) (c : Asked) (calls : List Asked) :
    postsOn event subject (n.posts (c :: calls)) =
      postsOn event subject (n.ask c).1 ++ postsOn event subject ((n.ask c).2.posts calls) :=
  List.filter_append ..

/-- The announcements of a persisting condition are the interval apart, and from the last
attempt before them. -/
theorem announcements_spaced (hkeyed : Keyed n.problems.records) {calls : List Asked}
    (hpersists : Persists event subject calls) :
    (∀ a, stampAt n.problems event subject = some a →
      ∀ p ∈ announcements (postsOn event subject (n.posts calls)),
        n.repeatInterval ≤ p.time - a) ∧
    (announcements (postsOn event subject (n.posts calls))).Pairwise (Apart n.repeatInterval) := by
  induction calls generalizing n with
  | nil =>
    refine ⟨?_, List.Pairwise.nil⟩
    intro a _ p hp
    cases hp
  | cons c calls ih =>
    have hrest : Persists event subject calls := fun c' hc' => hpersists c'
      (List.mem_cons_of_mem _ hc')
    obtain ⟨hafter, hspaced⟩ := ih (keyed_ask hkeyed c) hrest
    rw [interval_ask] at hafter hspaced
    have hstamp := @stamp_ask n event subject hkeyed c
    obtain ⟨hann, hclear, hnone⟩ := @posts_ask n event subject hkeyed c
    rw [postsOn_cons]
    unfold announcements at hafter hspaced ⊢
    rw [List.filter_append]
    cases hcase : n.announces event subject c with
    | true =>
      obtain ⟨p, hp, hkind, htime⟩ := hann hcase
      rw [hcase, if_pos rfl] at hstamp
      have hlater := hafter c.time hstamp
      have hspent := spent_of_announces List.mem_cons_self hpersists hcase
      have hfirst : [p].filter (fun p => !p.isRecovery) = [p] :=
        List.filter_cons_of_pos (by rw [hkind]; rfl)
      rw [hp, hfirst, List.singleton_append]
      refine ⟨?_, List.pairwise_cons.mpr ⟨?_, hspaced⟩⟩
      · intro a ha q hq
        have hgap := hspent a ha
        rcases List.mem_cons.mp hq with rfl | hq
        · rw [htime]
          exact hgap
        · have hnext := hlater q hq
          omega
      · intro q hq
        unfold Apart
        rw [htime]
        exact hlater q hq
    | false =>
      rw [hcase, if_neg Bool.false_ne_true] at hstamp
      rw [hstamp] at hafter
      have hsilent : (postsOn event subject (n.ask c).1).filter (fun p => !p.isRecovery) = [] := by
        cases hclears : n.clears event subject c with
        | true =>
          obtain ⟨p, hp, hkind, _⟩ := hclear hclears
          rw [hp]
          exact List.filter_cons_of_neg (by rw [hkind]; exact Bool.false_ne_true)
        | false =>
          rw [hnone hcase hclears]
          rfl
      rw [hsilent, List.nil_append]
      exact ⟨hafter, hspaced⟩

end Calls

/-- A notifier, and what its run has done to one condition so far. -/
structure Watch where
  notifier : Notifier
  /-- Whether it was announced since it was last cleared. -/
  announced : Bool
  /-- When it was last cleared. -/
  cleared : Option ℕ

/-- What a call makes of them. -/
def Watch.next (event subject : String) (w : Watch) (c : Asked) : Watch where
  notifier := (w.notifier.ask c).2
  announced :=
    if w.notifier.clears event subject c then false
    else w.announced || w.notifier.announces event subject c
  cleared := if w.notifier.clears event subject c then some c.time else w.cleared

/-- A call clears an open and loud condition only when it was announced since it was last
cleared, and that was at least the repeat interval ago. -/
def Calm (event subject : String) (w : Watch) (c : Asked) : Prop :=
  w.notifier.clears event subject c = true → w.announced = true ∧
    ∀ t, w.cleared = some t → w.notifier.repeatInterval ≤ c.time - t

section Runs

variable {event subject : String}

/-- The recoveries of a condition are announced and spaced, from what was done to it before,
exactly when every clear of the run is calm. -/
theorem recoveries_iff {w : Watch} (hkeyed : Keyed w.notifier.problems.records)
    (calls : List Asked) :
    (∀ t, w.cleared = some t →
      ∀ p ∈ (postsOn event subject (w.notifier.posts calls)).filter Posted.isRecovery,
        w.notifier.repeatInterval ≤ p.time - t) ∧
    ((postsOn event subject (w.notifier.posts calls)).filter Posted.isRecovery).Pairwise
      (Apart w.notifier.repeatInterval) ∧
    Heralded w.announced (postsOn event subject (w.notifier.posts calls)) ↔
      Everywhere (Watch.next event subject) (Calm event subject) w calls := by
  induction calls generalizing w with
  | nil =>
    refine iff_of_true ⟨?_, List.Pairwise.nil, trivial⟩ trivial
    intro t _ p hp
    cases hp
  | cons c calls ih =>
    have hlater := @ih (w.next event subject c) (keyed_ask hkeyed c)
    obtain ⟨hann, hclear, hnone⟩ := @posts_ask w.notifier event subject hkeyed c
    change _ ↔ Calm event subject w c ∧
      Everywhere (Watch.next event subject) (Calm event subject) (w.next event subject c) calls
    rw [← hlater, postsOn_cons]
    change _ ↔ _ ∧ (∀ t, (w.next event subject c).cleared = some t →
      ∀ p ∈ (postsOn event subject ((w.notifier.ask c).2.posts calls)).filter Posted.isRecovery,
        (w.notifier.ask c).2.repeatInterval ≤ p.time - t) ∧
      ((postsOn event subject ((w.notifier.ask c).2.posts calls)).filter
        Posted.isRecovery).Pairwise (Apart (w.notifier.ask c).2.repeatInterval) ∧
      Heralded (w.next event subject c).announced
        (postsOn event subject ((w.notifier.ask c).2.posts calls))
    rw [interval_ask, List.filter_append]
    generalize postsOn event subject ((w.notifier.ask c).2.posts calls) = rest
    unfold Watch.next Calm
    cases hclears : w.notifier.clears event subject c with
    | true =>
      obtain ⟨p, hp, hkind, htime⟩ := hclear hclears
      have hfirst : [p].filter Posted.isRecovery = [p] := List.filter_cons_of_pos hkind
      rw [hp, hfirst, List.singleton_append, List.singleton_append, List.pairwise_cons]
      dsimp only
      rw [if_pos rfl, if_pos rfl, Heralded, if_pos hkind]
      constructor
      · rintro ⟨hspaced, ⟨hafter, hpair⟩, hannounced, hrest⟩
        refine ⟨fun _ => ⟨hannounced, fun t ht => ?_⟩, ?_, hpair, hrest⟩
        · rw [← htime]
          exact hspaced t ht p List.mem_cons_self
        · intro t ht q hq
          cases ht
          rw [← htime]
          exact hafter q hq
      · rintro ⟨hcalm, hspaced, hpair, hrest⟩
        obtain ⟨hannounced, hgap⟩ := hcalm rfl
        refine ⟨?_, ⟨?_, hpair⟩, hannounced, hrest⟩
        · intro t ht q hq
          have hfirstGap := hgap t ht
          rcases List.mem_cons.mp hq with rfl | hq
          · rw [htime]
            exact hfirstGap
          · have hnextGap := hspaced c.time rfl q hq
            omega
        · intro q hq
          unfold Apart
          rw [htime]
          exact hspaced c.time rfl q hq
    | false =>
      dsimp only
      rw [if_neg Bool.false_ne_true, if_neg Bool.false_ne_true]
      refine Iff.trans ?_ (and_iff_right (fun h => (nomatch h))).symm
      cases hannounces : w.notifier.announces event subject c with
      | true =>
        obtain ⟨p, hp, hkind, _⟩ := hann hannounces
        have hsilent : [p].filter Posted.isRecovery = [] :=
          List.filter_cons_of_neg (by rw [hkind]; exact Bool.false_ne_true)
        rw [hp, hsilent, List.nil_append, List.singleton_append, Heralded, hkind,
          if_neg Bool.false_ne_true, Bool.or_true]
      | false =>
        rw [hnone hannounces hclears, List.filter_nil, List.nil_append, List.nil_append,
          Bool.or_false]

/-- **What a flapping condition posts** does not flood the channel exactly when every clear
of it is calm. -/
theorem unflooded_iff {n : Notifier} (hkeyed : Keyed n.problems.records) {calls : List Asked}
    (hpersists : Persists event subject calls) :
    Unflooded n.repeatInterval (postsOn event subject (n.posts calls)) ↔
      Everywhere (Watch.next event subject) (Calm event subject) ⟨n, false, none⟩ calls := by
  have hiff := @recoveries_iff event subject ⟨n, false, none⟩ hkeyed calls
  rw [← hiff]
  constructor
  · intro h
    exact ⟨fun t ht => (nomatch ht), h.recoveries, h.heralded⟩
  · rintro ⟨_, hrecoveries, hheralded⟩
    exact ⟨(announcements_spaced hkeyed hpersists).2, hrecoveries, hheralded⟩

end Runs

/-- A notifier with a channel, whose repeat interval is an hour. -/
def hourly : Notifier := ⟨"c", .warning, 3600, {}, true⟩

/-- A condition is announced and cleared once. -/
def clearedOnce : List Asked := [⟨0, .send sampleCondition⟩, ⟨1, .resolve "e"⟩]

/-- A condition that is announced and cleared once does not flood the channel. -/
theorem cleared_once_unflooded :
    Unflooded hourly.repeatInterval (postsOn "e" "" (hourly.posts clearedOnce)) := by
  have hempty : Keyed hourly.problems.records := by
    intro event subject p hp
    simp [hourly, Records.find] at hp
  have hpersists : Persists "e" "" clearedOnce := by
    intro c hc ev hsend _ _
    simp only [clearedOnce, List.mem_cons, List.not_mem_nil, or_false] at hc
    rcases hc with rfl | rfl
    · cases hsend
      rfl
    · cases hsend
  have hnever : (Watch.next "e" "" ⟨hourly, false, none⟩ ⟨0, .send sampleCondition⟩).cleared =
      none := by decide +kernel
  refine (unflooded_iff hempty hpersists).mpr ⟨?_, ?_, trivial⟩
  · intro hclears
    cases hclears
  · intro _
    refine ⟨by decide +kernel, fun t ht => ?_⟩
    rw [hnever] at ht
    cases ht

/-- A condition comes and goes twice, within seconds. -/
def flapping : List Asked :=
  [⟨0, .send sampleCondition⟩, ⟨1, .resolve "e"⟩, ⟨2, .send sampleCondition⟩, ⟨3, .resolve "e"⟩]

/-- Two recoveries of a condition are posted within seconds, and only the first of them was
announced. -/
theorem flapping_floods :
    ((postsOn "e" "" (hourly.posts flapping)).map fun p => (p.isRecovery, p.time)) =
        [(false, 0), (true, 1), (true, 3)] ∧
      ¬Unflooded hourly.repeatInterval (postsOn "e" "" (hourly.posts flapping)) := by
  have hposts : ((postsOn "e" "" (hourly.posts flapping)).map fun p => (p.isRecovery, p.time)) =
      [(false, 0), (true, 1), (true, 3)] := by decide +kernel
  refine ⟨hposts, fun h => ?_⟩
  have htwice : ((postsOn "e" "" (hourly.posts flapping)).filter Posted.isRecovery).map
      Posted.time = [1, 3] := by decide +kernel
  have hspaced : (((postsOn "e" "" (hourly.posts flapping)).filter Posted.isRecovery).map
      Posted.time).Pairwise fun t t' => hourly.repeatInterval ≤ t' - t :=
    List.pairwise_map.mpr h.recoveries
  rw [htwice] at hspaced
  have hgap : hourly.repeatInterval ≤ 3 - 1 := (List.pairwise_cons.mp hspaced).1 3 (by simp)
  exact absurd hgap (by decide)

end Kerbridge.Notify

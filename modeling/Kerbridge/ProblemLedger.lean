import Kerbridge.ProblemRecords
import Kerbridge.Runs

/-!
# The ledger of problems, over restarts

A run of raises, clears and restarts, at times that do not go back. Of a record only
two things decide what is announced: when an announcement was last attempted, and the
step of the countdown. A restart may forget both, and a raise that cannot be delivered
moves the second.
-/

namespace Kerbridge.Notify

open Std (ExtTreeMap)
open Runs

/-- What happens to the ledger. -/
inductive Call where
  | raise (ev : Event) (component : String) (deliverable : Bool)
  | resolve (event : String)
  | resolveOne (event subject : String)
  /-- The process starts again, and reads the state directory. -/
  | restart (listing : Listing)

/-- A call, and when it is made. -/
structure Timed where
  time : ℕ
  call : Call

/-- What a call leaves. -/
def next (interval : ℕ) (ps : Problems) (c : Timed) : Problems :=
  match c.call with
  | .raise ev component deliverable => (ps.raise ev component c.time interval deliverable).2
  | .resolve event => (ps.resolve event).2
  | .resolveOne event subject => (ps.resolveOne event subject).2
  | .restart listing => Problems.load ps.dir listing interval c.time

/-- What a raise answers. -/
def answer (interval : ℕ) (ps : Problems) (c : Timed) : Option Bool :=
  match c.call with
  | .raise ev component deliverable =>
    some (ps.raise ev component c.time interval deliverable).1
  | _ => none

/-- The answers of the raises of a run that are listened to. -/
def heard (interval : ℕ) : Problems → List (Timed × Bool) → List Bool
  | _, [] => []
  | ps, (c, listened) :: rest =>
    (if listened then (answer interval ps c).toList else []) ++
      heard interval (next interval ps c) rest

/-- The answers of all raises of a run. -/
def answers (interval : ℕ) (ps : Problems) (calls : List Timed) : List Bool :=
  heard interval ps (calls.map fun c => (c, true))

/-- When persisting conditions of an event and a subject are announced. -/
def announced (interval : ℕ) (event subject : String) : Problems → List Timed → List ℕ
  | _, [] => []
  | ps, c :: rest =>
    (match c.call with
    | .raise ev _ _ =>
      if ev.event = event ∧ ev.subject = subject ∧ ev.repeats = .persisting ∧
        answer interval ps c = some true then [c.time] else []
    | _ => []) ++ announced interval event subject (next interval ps c) rest

/-- When an announcement was last attempted. -/
def stampAt (ps : Problems) (event subject : String) : Option ℕ :=
  (ps.records.find event subject).bind Problem.attemptedAt

/-- The step the countdown was last in. -/
def bandAt (ps : Problems) (event subject : String) : Option ℤ :=
  (ps.records.find event subject).bind Problem.band

/-- A stamp that keeps nothing from being announced. -/
def Spent (interval now : ℕ) (stamp : Option ℕ) : Prop := ∀ t, stamp = some t → interval ≤ now - t

/-- What makes an event due, of the stamp and the step of its record. -/
theorem due_iff {ps : Problems} {ev : Event} {now interval : ℕ} {deliverable : Bool} :
    due (ps.records.find ev.event ev.subject) ev now interval deliverable = true ↔
      deliverable = true ∧
        match ev.repeats with
        | .persisting => Spent interval now (stampAt ps ev.event ev.subject)
        | .countdown days => ∃ step, band days = some step ∧
            ∀ had, bandAt ps ev.event ev.subject = some had → step < had := by
  unfold due stampAt bandAt Spent Problem.rested
  rw [Bool.and_eq_true]
  refine and_congr_right fun _ => ?_
  cases ev.repeats with
  | persisting =>
    cases ps.records.find ev.event ev.subject with
    | none => simp
    | some p => simp [Option.all_eq_true]
  | countdown days =>
    dsimp only
    cases band days with
    | none => simp
    | some step =>
      cases ps.records.find ev.event ev.subject with
      | none => simp
      | some p => simp [Option.all_eq_true]

/-- A stamp that is spent stays so. -/
theorem Spent.later {interval now later : ℕ} {stamp : Option ℕ} (h : Spent interval now stamp)
    (hle : now ≤ later) : Spent interval later stamp := by
  intro t ht
  have hspent := h t ht
  omega

section Steps

variable {keys : String → String → Prop} {interval now : ℕ} {ps ps' : Problems}

/-- What a raise leaves of the stamp and the step of a record. -/
theorem memory_raise (ps : Problems) (ev : Event) (component : String) (now interval : ℕ)
    (deliverable : Bool) (event subject : String) :
    (stampAt (ps.raise ev component now interval deliverable).2 event subject =
      if ev.event = event ∧ ev.subject = subject then
        (if (ps.raise ev component now interval deliverable).1 then some now
          else stampAt ps event subject)
      else stampAt ps event subject) ∧
    bandAt (ps.raise ev component now interval deliverable).2 event subject =
      if ev.event = event ∧ ev.subject = subject then ev.band else bandAt ps event subject := by
  have hfind := find_store ps (raised (ps.records.find ev.event ev.subject) ev component now
    (due (ps.records.find ev.event ev.subject) ev now interval deliverable)) event subject
  change Records.find (ps.raise ev component now interval deliverable).2.records event subject =
    if ev.event = event ∧ ev.subject = subject then _ else _ at hfind
  unfold stampAt bandAt
  rw [hfind]
  split
  · rename_i hkey
    obtain ⟨rfl, rfl⟩ := hkey
    exact ⟨rfl, rfl⟩
  · exact ⟨rfl, rfl⟩

/-- A clear leaves the stamp and the step of every record. -/
theorem memory_resolve (hkeyed : Keyed ps.records) (resolved event subject : String) :
    stampAt (ps.resolve resolved).2 event subject = stampAt ps event subject ∧
      bandAt (ps.resolve resolved).2 event subject = bandAt ps event subject := by
  have hsettled : ∀ found : Option Problem,
      (found.map Problem.settle).bind Problem.attemptedAt = found.bind Problem.attemptedAt ∧
        (found.map Problem.settle).bind Problem.band = found.bind Problem.band := by
    intro found
    cases found with
    | none => exact ⟨rfl, rfl⟩
    | some p =>
      rw [Option.map_some, Problem.settle]
      split
      · exact ⟨rfl, rfl⟩
      · exact ⟨rfl, rfl⟩
  unfold stampAt bandAt
  rw [find_resolve hkeyed]
  split
  · exact hsettled _
  · exact ⟨rfl, rfl⟩

/-- A clear of one subject leaves the stamp and the step of every record. -/
theorem memory_resolveOne (hkeyed : Keyed ps.records) (resolved one event subject : String) :
    stampAt (ps.resolveOne resolved one).2 event subject = stampAt ps event subject ∧
      bandAt (ps.resolveOne resolved one).2 event subject = bandAt ps event subject := by
  unfold stampAt bandAt
  rw [find_resolveOne hkeyed]
  split
  · cases ps.records.find event subject with
    | none => exact ⟨rfl, rfl⟩
    | some p =>
      rw [Option.map_some, Problem.settle]
      split
      · exact ⟨rfl, rfl⟩
      · exact ⟨rfl, rfl⟩
  · exact ⟨rfl, rfl⟩

/-- A restart leaves the stamp and the step of a record, or forgets both once the stamp is
past the interval. -/
theorem memory_restart (hmirrored : ps.Mirrored keys) (listing : Listing) (interval now : ℕ)
    (event subject : String) :
    (stampAt (Problems.load ps.dir listing interval now) event subject =
        stampAt ps event subject ∧
      bandAt (Problems.load ps.dir listing interval now) event subject =
        bandAt ps event subject) ∨
    ∃ p, ps.records.find event subject = some p ∧ p.prunable now interval = true ∧
      stampAt (Problems.load ps.dir listing interval now) event subject = none ∧
      bandAt (Problems.load ps.dir listing interval now) event subject = none := by
  have hfind := (load_mirrored hmirrored listing interval now).2 event subject
  unfold stampAt bandAt
  rw [hfind]
  cases hp : ps.records.find event subject with
  | none => exact Or.inl ⟨rfl, rfl⟩
  | some p =>
    rw [Option.filter_some]
    cases hprune : p.prunable now interval with
    | false => exact Or.inl ⟨rfl, rfl⟩
    | true => exact Or.inr ⟨p, rfl, hprune, rfl, rfl⟩

/-- A record that may go was last attempted longer ago than the interval, if at all. -/
theorem spent_of_prunable {p : Problem} (h : p.prunable now interval = true) :
    ∀ t, p.attemptedAt = some t → interval < now - t := by
  unfold Problem.prunable at h
  rw [Bool.and_eq_true] at h
  intro t ht
  have hall := h.2
  rw [ht, Option.all_some] at hall
  exact of_decide_eq_true hall

/-- Two ledgers that announce the same from a time on. -/
structure SameMemory (interval now : ℕ) (ps ps' : Problems) : Prop where
  bands : ∀ e s, bandAt ps' e s = bandAt ps e s
  stamps : ∀ e s, stampAt ps' e s = stampAt ps e s ∨
    Spent interval now (stampAt ps e s) ∧ Spent interval now (stampAt ps' e s)

/-- A ledger announces the same as itself. -/
theorem SameMemory.refl (interval now : ℕ) (ps : Problems) : SameMemory interval now ps ps :=
  ⟨fun _ _ => rfl, fun _ _ => Or.inl rfl⟩

/-- Two ledgers that announce the same as a third do so as each other. -/
theorem SameMemory.left {ps₁ : Problems} (h : SameMemory interval now ps ps')
    (h₁ : SameMemory interval now ps ps₁) : SameMemory interval now ps₁ ps' := by
  refine ⟨fun e s => (h.bands e s).trans (h₁.bands e s).symm, ?_⟩
  intro e s
  rcases h₁.stamps e s with heq₁ | ⟨hspent, hspent₁⟩
  · rw [heq₁]
    exact h.stamps e s
  · rcases h.stamps e s with heq | ⟨_, hspent'⟩
    · rw [heq]
      exact Or.inr ⟨hspent₁, hspent⟩
    · exact Or.inr ⟨hspent₁, hspent'⟩

/-- Two ledgers announce the same, as one of them goes on without a change. -/
theorem SameMemory.right {ps₁ : Problems} (h : SameMemory interval now ps ps')
    (h₁ : SameMemory interval now ps' ps₁) : SameMemory interval now ps ps₁ := by
  refine ⟨fun e s => (h₁.bands e s).trans (h.bands e s), ?_⟩
  intro e s
  rcases h₁.stamps e s with heq₁ | ⟨hspent', hspent₁⟩
  · rw [heq₁]
    exact h.stamps e s
  · rcases h.stamps e s with heq | ⟨hspent, _⟩
    · rw [heq] at hspent'
      exact Or.inr ⟨hspent', hspent₁⟩
    · exact Or.inr ⟨hspent, hspent₁⟩

/-- Two ledgers that announce the same go on doing so. -/
theorem SameMemory.later {later : ℕ} (h : SameMemory interval now ps ps') (hle : now ≤ later) :
    SameMemory interval later ps ps' := by
  refine ⟨h.bands, ?_⟩
  intro e s
  rcases h.stamps e s with heq | ⟨hspent, hspent'⟩
  · exact Or.inl heq
  · exact Or.inr ⟨hspent.later hle, hspent'.later hle⟩

/-- Two ledgers that announce the same answer a raise alike. -/
theorem SameMemory.answer (h : SameMemory interval now ps ps') (ev : Event) (component : String)
    (deliverable : Bool) :
    (ps'.raise ev component now interval deliverable).1 =
      (ps.raise ev component now interval deliverable).1 := by
  have hdue : (due (ps'.records.find ev.event ev.subject) ev now interval deliverable = true) ↔
      due (ps.records.find ev.event ev.subject) ev now interval deliverable = true := by
    rw [due_iff, due_iff, h.bands]
    refine and_congr_right fun _ => ?_
    cases ev.repeats with
    | countdown days => exact Iff.rfl
    | persisting =>
      dsimp only
      rcases h.stamps ev.event ev.subject with heq | ⟨hspent, hspent'⟩
      · rw [heq]
      · exact iff_of_true hspent' hspent
  exact Bool.eq_iff_iff.mpr hdue

/-- Two ledgers that announce the same do so after a raise. -/
theorem SameMemory.raise (h : SameMemory interval now ps ps') (ev : Event) (component : String)
    (deliverable : Bool) :
    SameMemory interval now (ps.raise ev component now interval deliverable).2
      (ps'.raise ev component now interval deliverable).2 := by
  have hanswer := h.answer ev component deliverable
  refine ⟨?_, ?_⟩
  · intro e s
    rw [(memory_raise ps' ev component now interval deliverable e s).2,
      (memory_raise ps ev component now interval deliverable e s).2, h.bands]
  · intro e s
    rw [(memory_raise ps' ev component now interval deliverable e s).1,
      (memory_raise ps ev component now interval deliverable e s).1, hanswer]
    split
    · split
      · exact Or.inl rfl
      · exact h.stamps e s
    · exact h.stamps e s

end Steps

/-- A call that changes nothing of what is announced: a restart that forgets no step of a
countdown, and a raise that cannot be delivered and is in the step its record holds. -/
def Harmless (interval : ℕ) (ps : Problems) (c : Timed) : Prop :=
  match c.call with
  | .raise ev _ deliverable => deliverable = false → bandAt ps ev.event ev.subject = ev.band
  | .restart _ => ∀ e s p, ps.records.find e s = some p → p.prunable c.time interval = true →
      p.band = none
  | _ => True

/-- A call without an answer to be heard: a restart, or a raise that cannot be delivered. -/
def Call.Mute : Call → Prop
  | .raise _ _ deliverable => deliverable = false
  | .restart _ => True
  | _ => False

/-- Whether a call is a restart. -/
def Call.isRestart : Call → Bool
  | .restart _ => true
  | _ => false

/-- The records a call may keep are of some keys. -/
def Call.Within (keys : String → String → Prop) : Call → Prop
  | .raise ev _ _ => keys ev.event ev.subject
  | _ => True

section Runs

variable {keys : String → String → Prop} {interval now : ℕ} {ps ps' : Problems}

/-- Every call leaves the ledger mirrored. -/
theorem mirrored_next (hapart : StemsApart keys) (h : ps.Mirrored keys) {c : Timed}
    (hc : c.call.Within keys) : (next interval ps c).Mirrored keys := by
  obtain ⟨time, call⟩ := c
  cases call with
  | raise ev component deliverable =>
    obtain ⟨dir, hdir, hmirrors⟩ := h
    refine ⟨writeFile dir _, ?_, hmirrors.store hapart hc⟩
    change ps.dir.map _ = _
    rw [hdir, Option.map_some]
  | resolve event => exact mirrored_resolve hapart h event
  | resolveOne event subject => exact mirrored_resolveOne hapart h event subject
  | restart listing => exact (load_mirrored h listing interval time).1

/-- A harmless call without a deliverable raise changes nothing of what is announced. -/
theorem sameMemory_next (h : ps.Mirrored keys) {c : Timed}
    (hquiet : ∀ ev component deliverable, c.call = .raise ev component deliverable →
      deliverable = false) (hharmless : Harmless interval ps c) :
    SameMemory interval c.time ps (next interval ps c) := by
  obtain ⟨dir, hdir, hmirrors⟩ := h
  obtain ⟨time, call⟩ := c
  cases call with
  | raise ev component deliverable =>
    have hmute : deliverable = false := hquiet ev component deliverable rfl
    subst hmute
    have hband : bandAt ps ev.event ev.subject = ev.band := hharmless rfl
    have hsilent : (ps.raise ev component time interval false).1 = false := rfl
    refine ⟨?_, ?_⟩
    · intro e s
      change bandAt (ps.raise ev component time interval false).2 e s = _
      rw [(memory_raise ps ev component time interval false e s).2]
      split
      · rename_i hkey
        rw [← hband, hkey.1, hkey.2]
      · rfl
    · intro e s
      refine Or.inl ?_
      change stampAt (ps.raise ev component time interval false).2 e s = _
      rw [(memory_raise ps ev component time interval false e s).1, hsilent]
      simp
  | resolve event =>
    exact ⟨fun e s => (memory_resolve hmirrors.keyed event e s).2,
      fun e s => Or.inl (memory_resolve hmirrors.keyed event e s).1⟩
  | resolveOne event subject =>
    exact ⟨fun e s => (memory_resolveOne hmirrors.keyed event subject e s).2,
      fun e s => Or.inl (memory_resolveOne hmirrors.keyed event subject e s).1⟩
  | restart listing =>
    refine ⟨?_, ?_⟩
    · intro e s
      rcases memory_restart ⟨dir, hdir, hmirrors⟩ listing interval time e s with
        ⟨_, hband⟩ | ⟨p, hp, hprune, _, hband⟩
      · exact hband
      · have hnone : bandAt ps e s = none := by
          unfold bandAt
          rw [hp, Option.bind_some]
          exact hharmless e s p hp hprune
        exact hband.trans hnone.symm
    · intro e s
      rcases memory_restart ⟨dir, hdir, hmirrors⟩ listing interval time e s with
        ⟨hstamp, _⟩ | ⟨p, hp, hprune, hstamp, _⟩
      · exact Or.inl hstamp
      · refine Or.inr ⟨?_, ?_⟩
        · intro t ht
          unfold stampAt at ht
          rw [hp, Option.bind_some] at ht
          exact Nat.le_of_lt (spent_of_prunable hprune t ht)
        · intro t ht
          change stampAt (Problems.load ps.dir listing interval time) e s = _ at ht
          rw [hstamp] at ht
          cases ht

/-- Two ledgers that announce the same do so after the same call, which both answer alike. -/
theorem sameMemory_both (h : SameMemory interval now ps ps') (hps : ps.Mirrored keys)
    (hps' : ps'.Mirrored keys) {c : Timed} (hle : now ≤ c.time)
    (hrestart : c.call.isRestart = true → Harmless interval ps c ∧ Harmless interval ps' c) :
    answer interval ps' c = answer interval ps c ∧
      SameMemory interval c.time (next interval ps c) (next interval ps' c) := by
  have hlater := h.later hle
  obtain ⟨time, call⟩ := c
  cases call with
  | raise ev component deliverable =>
    exact ⟨congrArg some (hlater.answer ev component deliverable),
      hlater.raise ev component deliverable⟩
  | resolve event =>
    have hquiet : ∀ ev component deliverable,
        (Call.resolve event) = .raise ev component deliverable →
        deliverable = false := fun _ _ _ hc => nomatch hc
    exact ⟨rfl, (hlater.left (sameMemory_next hps hquiet trivial)).right
      (sameMemory_next hps' hquiet trivial)⟩
  | resolveOne event subject =>
    have hquiet : ∀ ev component deliverable,
        (Call.resolveOne event subject) = .raise ev component deliverable →
        deliverable = false := fun _ _ _ hc => nomatch hc
    exact ⟨rfl, (hlater.left (sameMemory_next hps hquiet trivial)).right
      (sameMemory_next hps' hquiet trivial)⟩
  | restart listing =>
    obtain ⟨hfirst, hsecond⟩ := hrestart rfl
    have hquiet : ∀ ev component deliverable,
        (Call.restart listing) = .raise ev component deliverable →
        deliverable = false := fun _ _ _ hc => nomatch hc
    exact ⟨rfl, (hlater.left (sameMemory_next hps hquiet hfirst)).right
      (sameMemory_next hps' hquiet hsecond)⟩

/-- What is heard of a run is what is heard once calls without an answer are left out of it,
if they are harmless. -/
theorem heard_thinned (hapart : StemsApart keys) {marked : List (Timed × Bool)}
    (h : SameMemory interval now ps ps') (hps : ps.Mirrored keys) (hps' : ps'.Mirrored keys)
    (hle : ∀ m ∈ marked, now ≤ m.1.time)
    (htimes : marked.Pairwise fun m m' => m.1.time ≤ m'.1.time)
    (hkeys : ∀ m ∈ marked, m.1.call.Within keys)
    (hmute : ∀ m ∈ marked, m.2 = false → m.1.call.Mute)
    (hlawful : Everywhere (next interval) (Harmless interval) ps (marked.map Prod.fst))
    (hthinned : Everywhere (next interval)
      (fun ps c => c.call.isRestart = true → Harmless interval ps c) ps'
      ((marked.filter Prod.snd).map Prod.fst)) :
    heard interval ps marked =
      answers interval ps' ((marked.filter Prod.snd).map Prod.fst) := by
  induction marked generalizing ps ps' now with
  | nil => rfl
  | cons m marked ih =>
    obtain ⟨c, listened⟩ := m
    obtain ⟨hfirst, hrest⟩ := List.forall_mem_cons.mp hle
    obtain ⟨hbefore, hlater⟩ := List.pairwise_cons.mp htimes
    obtain ⟨hkey, hwithin⟩ := List.forall_mem_cons.mp hkeys
    obtain ⟨hquiet, hmutes⟩ := List.forall_mem_cons.mp hmute
    obtain ⟨hharmless, hlawful⟩ := hlawful
    have hnext : (next interval ps c).Mirrored keys := mirrored_next hapart hps hkey
    cases listened with
    | true =>
      obtain ⟨hthin, hthinned⟩ := hthinned
      obtain ⟨hsame, hmemory⟩ := sameMemory_both h hps hps' hfirst
        fun hrestart => ⟨hharmless, hthin hrestart⟩
      have hnext' : (next interval ps' c).Mirrored keys := mirrored_next hapart hps' hkey
      have hgo := ih hmemory hnext hnext' hbefore hlater hwithin hmutes hlawful hthinned
      change (answer interval ps c).toList ++ heard interval (next interval ps c) marked =
        (answer interval ps' c).toList ++ answers interval (next interval ps' c) _
      rw [hsame, hgo]
    | false =>
      have hsilent : ∀ ev component deliverable, c.call = .raise ev component deliverable →
          deliverable = false := by
        intro ev component deliverable hcall
        have hcallMute := hquiet rfl
        dsimp only at hcallMute
        rw [hcall] at hcallMute
        exact hcallMute
      have hmemory := (h.later hfirst).left (sameMemory_next hps hsilent hharmless)
      exact ih hmemory hnext hps' hbefore hlater hwithin hmutes hlawful hthinned

/-- The time an announcement must stay away from: it is past, or a later stamp is held. -/
def Held (interval now t : ℕ) (stamp : Option ℕ) : Prop :=
  t + interval ≤ now ∨ ∃ a, stamp = some a ∧ t ≤ a

/-- Every call leaves an announcement held off until the interval has passed. -/
theorem held_next (hps : ps.Mirrored keys) {c : Timed} {event subject : String} {t : ℕ}
    (hle : now ≤ c.time) (ht : t ≤ now) (h : Held interval now t (stampAt ps event subject)) :
    Held interval c.time t (stampAt (next interval ps c) event subject) := by
  obtain ⟨dir, hdir, hmirrors⟩ := hps
  have hlater : Held interval c.time t (stampAt ps event subject) := by
    rcases h with hpast | hstamp
    · exact Or.inl (Nat.le_trans hpast hle)
    · exact Or.inr hstamp
  obtain ⟨time, call⟩ := c
  cases call with
  | raise ev component deliverable =>
    change Held _ _ _ (stampAt (ps.raise ev component time interval deliverable).2 event subject)
    rw [(memory_raise ps ev component time interval deliverable event subject).1]
    split
    · split
      · exact Or.inr ⟨time, rfl, Nat.le_trans ht hle⟩
      · exact hlater
    · exact hlater
  | resolve resolved =>
    change Held _ _ _ (stampAt (ps.resolve resolved).2 event subject)
    rw [(memory_resolve hmirrors.keyed resolved event subject).1]
    exact hlater
  | resolveOne resolved one =>
    change Held _ _ _ (stampAt (ps.resolveOne resolved one).2 event subject)
    rw [(memory_resolveOne hmirrors.keyed resolved one event subject).1]
    exact hlater
  | restart listing =>
    change Held _ _ _ (stampAt (Problems.load ps.dir listing interval time) event subject)
    rcases memory_restart ⟨dir, hdir, hmirrors⟩ listing interval time event subject with
      ⟨hstamp, _⟩ | ⟨p, hp, hprune, _, _⟩
    · rw [hstamp]
      exact hlater
    · rcases hlater with hpast | ⟨a, ha, hta⟩
      · exact Or.inl hpast
      · have hattempted : p.attemptedAt = some a := by
          unfold stampAt at ha
          rw [hp, Option.bind_some] at ha
          exact ha
        have hgone := spent_of_prunable hprune a hattempted
        refine Or.inl ?_
        dsimp only at hgone ⊢
        omega

/-- An announcement that is held off comes when the interval has passed. -/
theorem announced_held (hapart : StemsApart keys) {calls : List Timed} {event subject : String}
    {t : ℕ} (hps : ps.Mirrored keys) (hle : ∀ c ∈ calls, now ≤ c.time)
    (htimes : calls.Pairwise fun c c' => c.time ≤ c'.time)
    (hkeys : ∀ c ∈ calls, c.call.Within keys) (ht : t ≤ now)
    (h : Held interval now t (stampAt ps event subject)) :
    ∀ t' ∈ announced interval event subject ps calls, t + interval ≤ t' := by
  induction calls generalizing ps now with
  | nil =>
    intro t' ht'
    cases ht'
  | cons c calls ih =>
    obtain ⟨hfirst, hrest⟩ := List.forall_mem_cons.mp hle
    obtain ⟨hbefore, hlater⟩ := List.pairwise_cons.mp htimes
    obtain ⟨hkey, hwithin⟩ := List.forall_mem_cons.mp hkeys
    intro t' ht'
    unfold announced at ht'
    rcases List.mem_append.mp ht' with hnow | hafter
    · obtain ⟨time, call⟩ := c
      cases call with
      | raise ev component deliverable =>
        dsimp only at hnow hfirst
        split at hnow
        · rename_i hann
          obtain ⟨rfl, rfl, hpersisting, hanswer⟩ := hann
          rw [List.mem_singleton] at hnow
          have hdue := due_iff.mp (Option.some.inj hanswer)
          rw [hpersisting] at hdue
          have hspent : Spent interval time (stampAt ps ev.event ev.subject) := hdue.2
          rcases h with hpast | ⟨a, ha, hta⟩
          · omega
          · have hrested := hspent a ha
            omega
        · cases hnow
      | resolve event => cases hnow
      | resolveOne event subject => cases hnow
      | restart listing => cases hnow
    · exact ih (mirrored_next hapart hps hkey) hbefore hlater hwithin (Nat.le_trans ht hfirst)
        (held_next hps hfirst ht h) t' hafter

/-- Two announcements of a persisting condition are at least the interval apart. -/
theorem announced_spaced (hapart : StemsApart keys) {calls : List Timed}
    (hps : ps.Mirrored keys) (htimes : calls.Pairwise fun c c' => c.time ≤ c'.time)
    (hkeys : ∀ c ∈ calls, c.call.Within keys) (event subject : String) :
    (announced interval event subject ps calls).Pairwise fun t t' => t + interval ≤ t' := by
  induction calls generalizing ps with
  | nil => exact List.Pairwise.nil
  | cons c calls ih =>
    obtain ⟨hbefore, hlater⟩ := List.pairwise_cons.mp htimes
    obtain ⟨hkey, hwithin⟩ := List.forall_mem_cons.mp hkeys
    have hnext : (next interval ps c).Mirrored keys := mirrored_next hapart hps hkey
    have hrest := ih hnext hlater hwithin
    unfold announced
    obtain ⟨time, call⟩ := c
    cases call with
    | raise ev component deliverable =>
      dsimp only
      split
      · rename_i hann
        obtain ⟨rfl, rfl, _, hanswer⟩ := hann
        refine List.pairwise_cons.mpr ⟨?_, hrest⟩
        -- what was just announced is held off by its own stamp
        refine announced_held hapart hnext hbefore hlater hwithin (Nat.le_refl time)
          (Or.inr ⟨time, ?_, Nat.le_refl time⟩)
        change stampAt (ps.raise ev component time interval deliverable).2 _ _ = _
        rw [(memory_raise ps ev component time interval deliverable _ _).1, if_pos ⟨rfl, rfl⟩,
          if_pos (Option.some.inj hanswer)]
      · exact hrest
    | resolve event => exact hrest
    | resolveOne event subject => exact hrest
    | restart listing => exact hrest

end Runs

/-- The calls that are not restarts. -/
def unbroken (calls : List Timed) : List Timed := calls.filter fun c => !c.call.isRestart

/-- The calls of a run, of which the restarts are not listened to. -/
def apartFromRestarts (calls : List Timed) : List (Timed × Bool) :=
  calls.map fun c => (c, !c.call.isRestart)

/-- A restart answers nothing, so nothing is missed when it is not listened to. -/
theorem heard_apartFromRestarts (interval : ℕ) (ps : Problems) (calls : List Timed) :
    heard interval ps (apartFromRestarts calls) = answers interval ps calls := by
  induction calls generalizing ps with
  | nil => rfl
  | cons c calls ih =>
    change (if !c.call.isRestart then (answer interval ps c).toList else []) ++
        heard interval (next interval ps c) (apartFromRestarts calls) =
      (answer interval ps c).toList ++ answers interval (next interval ps c) calls
    rw [ih]
    obtain ⟨time, call⟩ := c
    cases call with
    | raise ev component deliverable => rfl
    | resolve event => rfl
    | resolveOne event subject => rfl
    | restart listing => rfl

/-- What is left when the restarts are left out. -/
theorem filter_apartFromRestarts (calls : List Timed) :
    ((apartFromRestarts calls).filter Prod.snd).map Prod.fst = unbroken calls := by
  unfold apartFromRestarts unbroken
  rw [List.filter_map, List.map_map]
  exact List.map_id _

/-- A run without restarts meets every condition on restarts. -/
theorem everywhere_unbroken (interval : ℕ) (P : Problems → Timed → Prop) (ps : Problems)
    (calls : List Timed) : Everywhere (next interval)
      (fun ps c => c.call.isRestart = true → P ps c) ps (unbroken calls) := by
  have hnone : ∀ c ∈ unbroken calls, c.call.isRestart = false := by
    intro c hc
    simpa using (List.mem_filter.mp hc).2
  generalize unbroken calls = rest at hnone
  induction rest generalizing ps with
  | nil => trivial
  | cons c rest ih =>
    obtain ⟨hc, hrest⟩ := List.forall_mem_cons.mp hnone
    refine ⟨?_, ih _ hrest⟩
    intro hrestart
    rw [hc] at hrestart
    cases hrestart

/-- A condition on every call is one on every restart. -/
theorem everywhere_restarts {interval : ℕ} {P : Problems → Timed → Prop} {ps : Problems}
    {calls : List Timed} (h : Everywhere (next interval) P ps calls) :
    Everywhere (next interval) (fun ps c => c.call.isRestart = true → P ps c) ps calls := by
  induction calls generalizing ps with
  | nil => trivial
  | cons c calls ih => exact ⟨fun _ => h.1, ih h.2⟩

/-- The names of the files of the conditions that are raised do not clash. -/
def NamesApart (calls : List Timed) : Prop :=
  StemsApart fun event subject => ∃ c ∈ calls, ∃ ev component deliverable,
    c.call = .raise ev component deliverable ∧ ev.event = event ∧ ev.subject = subject

/-- A ledger that starts with a directory that holds no record. -/
def startIn (dir : Directory) : Problems := ⟨some dir, {}⟩

/-- A directory without records is what a ledger without records mirrors. -/
theorem mirrored_start {keys : String → String → Prop} {dir : Directory}
    (hfresh : ∀ name ∈ dir, isStateFile name = false) : (startIn dir).Mirrored keys := by
  have hnone : ∀ e s, Records.find {} e s = none := by
    intro e s
    simp [Records.find]
  refine ⟨dir, rfl, ⟨?_, ?_, ?_, ?_⟩⟩
  · intro e s p hp
    rw [startIn, hnone] at hp
    cases hp
  · intro e s p hp
    rw [startIn, hnone] at hp
    cases hp
  · intro e s p hp
    rw [startIn, hnone] at hp
    cases hp
  · intro name body hbody hstate
    have hmem : name ∈ dir := ExtTreeMap.mem_iff_isSome_getElem?.mpr (by rw [hbody]; rfl)
    rw [hfresh name hmem] at hstate
    cases hstate

/-- **The ledger over restarts**: persisting conditions are announced at least the interval
apart in every run, and in a run of harmless calls neither the restarts nor the raises that
cannot be delivered change what any raise answers. -/
theorem ledger_lawful {dir : Directory} (hfresh : ∀ name ∈ dir, isStateFile name = false)
    {interval : ℕ} {calls : List Timed} (hapart : NamesApart calls)
    (htimes : calls.Pairwise fun c c' => c.time ≤ c'.time) :
    (∀ event subject, (announced interval event subject (startIn dir) calls).Pairwise
      fun t t' => t + interval ≤ t') ∧
    (Everywhere (next interval) (Harmless interval) (startIn dir) calls →
      answers interval (startIn dir) calls = answers interval (startIn dir) (unbroken calls) ∧
      ∀ marked : List (Timed × Bool), marked.map Prod.fst = calls →
        (∀ m ∈ marked, m.2 = false → ∃ ev component, m.1.call = .raise ev component false) →
        Everywhere (next interval) (Harmless interval) (startIn dir)
          ((marked.filter Prod.snd).map Prod.fst) →
        heard interval (startIn dir) marked =
          answers interval (startIn dir) ((marked.filter Prod.snd).map Prod.fst)) := by
  have hwithin : ∀ c ∈ calls, c.call.Within fun event subject => ∃ c ∈ calls,
      ∃ ev component deliverable, c.call = .raise ev component deliverable ∧ ev.event = event ∧
        ev.subject = subject := by
    intro c hc
    cases hcall : c.call with
    | raise ev component deliverable =>
      exact ⟨c, hc, ev, component, deliverable, hcall, rfl, rfl⟩
    | resolve event => trivial
    | resolveOne event subject => trivial
    | restart listing => trivial
  refine ⟨announced_spaced hapart (mirrored_start hfresh) htimes hwithin, ?_⟩
  intro hlawful
  have hthinned : ∀ marked : List (Timed × Bool), marked.map Prod.fst = calls →
      (∀ m ∈ marked, m.2 = false → m.1.call.Mute) →
      Everywhere (next interval) (fun ps c => c.call.isRestart = true → Harmless interval ps c)
        (startIn dir) ((marked.filter Prod.snd).map Prod.fst) →
      heard interval (startIn dir) marked =
        answers interval (startIn dir) ((marked.filter Prod.snd).map Prod.fst) := by
    intro marked hcalls hmute hrestarts
    have hmem : ∀ m ∈ marked, m.1 ∈ calls := by
      intro m hm
      rw [← hcalls]
      exact List.mem_map_of_mem hm
    refine heard_thinned hapart (SameMemory.refl interval 0 _) (mirrored_start hfresh)
      (mirrored_start hfresh) (fun m _ => Nat.zero_le _) ?_ (fun m hm => hwithin m.1 (hmem m hm))
      hmute ?_ hrestarts
    · rw [← hcalls, List.pairwise_map] at htimes
      exact htimes
    · rw [hcalls]
      exact hlawful
  constructor
  · have hsame := hthinned (apartFromRestarts calls) ?_ ?_ ?_
    · rw [heard_apartFromRestarts, filter_apartFromRestarts] at hsame
      exact hsame
    · unfold apartFromRestarts
      rw [List.map_map]
      exact List.map_id _
    · intro m hm hunheard
      obtain ⟨c, _, rfl⟩ := List.mem_map.mp hm
      cases hcall : c.call with
      | raise ev component deliverable =>
        rw [hcall] at hunheard
        cases hunheard
      | resolve event =>
        rw [hcall] at hunheard
        cases hunheard
      | resolveOne event subject =>
        rw [hcall] at hunheard
        cases hunheard
      | restart listing => trivial
    · rw [filter_apartFromRestarts]
      exact everywhere_unbroken interval (Harmless interval) _ calls
  · intro marked hcalls hunheard hlawful'
    refine hthinned marked hcalls ?_ (everywhere_restarts hlawful')
    intro m hm hsilent
    obtain ⟨ev, component, hcall⟩ := hunheard m hm hsilent
    rw [hcall]
    rfl

/-- The files of a directory as it keeps them. -/
def plainListing : Listing := ⟨fun dir => dir.toList, fun _ => .refl _⟩

/-- A condition that is simply still true. -/
def sampleCondition : Event := ⟨"e", .error, "", "m", "", .persisting, .condition⟩

/-- A deadline three days away. -/
def sampleCountdown : Event := ⟨"e", .error, "", "m", "", .countdown 3, .condition⟩

/-- A condition is raised before and after a restart. -/
def sampleCalls : List Timed :=
  [⟨0, .raise sampleCondition "c" true⟩, ⟨1, .restart plainListing⟩,
    ⟨2, .raise sampleCondition "c" true⟩]

/-- What the law of the ledger says of a condition raised before and after a restart. -/
theorem ledger_lawful_sample :
    answers 60 (startIn {}) sampleCalls = answers 60 (startIn {}) (unbroken sampleCalls) := by
  have hkey : ∀ c ∈ sampleCalls, ∀ ev component deliverable,
      c.call = .raise ev component deliverable → ev = sampleCondition := by
    intro c hc ev component deliverable hcall
    simp only [sampleCalls, List.mem_cons, List.not_mem_nil, or_false] at hc
    rcases hc with rfl | rfl | rfl
    · cases hcall
      rfl
    · cases hcall
    · cases hcall
      rfl
  have hapart : NamesApart sampleCalls := by
    rintro e s e' s' ⟨c, hc, ev, component, deliverable, hcall, rfl, rfl⟩
      ⟨c', hc', ev', component', deliverable', hcall', rfl, rfl⟩ _
    rw [hkey c hc _ _ _ hcall, hkey c' hc' _ _ _ hcall']
    exact ⟨rfl, rfl⟩
  have hfresh : ∀ name ∈ ({} : Directory), isStateFile name = false := by
    intro name hname
    simp at hname
  have htimes : sampleCalls.Pairwise fun c c' => c.time ≤ c'.time := by
    unfold sampleCalls
    simp
  refine ((ledger_lawful hfresh hapart htimes).2 ⟨?_, ?_, ?_, trivial⟩).1
  · intro hmute
    cases hmute
  · intro e s p hp _
    have hfind :
        ((startIn {}).raise sampleCondition "c" 0 60 true).2.records.find e s = some p := hp
    rw [Problems.raise, find_store] at hfind
    split at hfind
    · cases hfind
      rfl
    · simp [startIn, Records.find] at hfind
  · intro hmute
    cases hmute

/-- A deadline is reported before it can be delivered, and again once it can. -/
def mutedCalls : List (Timed × Bool) :=
  [(⟨0, .raise sampleCountdown "c" false⟩, false), (⟨1, .raise sampleCountdown "c" true⟩, true)]

/-- A raise that cannot be delivered keeps the next one from being announced. -/
theorem mute_raise_silences :
    (∀ m ∈ mutedCalls, m.2 = false → ∃ ev component, m.1.call = .raise ev component false) ∧
      heard 60 (startIn {}) mutedCalls = [false] ∧
      answers 60 (startIn {}) ((mutedCalls.filter Prod.snd).map Prod.fst) = [true] := by
  refine ⟨?_, by decide, by decide⟩
  intro m hm hunheard
  simp only [mutedCalls, List.mem_cons, List.not_mem_nil, or_false] at hm
  rcases hm with rfl | rfl
  · exact ⟨sampleCountdown, "c", rfl⟩
  · cases hunheard

end Kerbridge.Notify

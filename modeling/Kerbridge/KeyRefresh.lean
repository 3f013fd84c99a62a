import Kerbridge.Runs
import Kerbridge.TokenAcceptance

/-!
# Refreshing the signing keys, by any number of callers at once

Callers look a key up, decide to refresh, claim the refresh and fetch, each in
steps of its own, and the steps of different callers come in any order. The claim
holds every other caller off until the fetch has ended, as long as a fetch ends
before the claim does.
-/

namespace Kerbridge.KeyRefresh

open UnicodeText Runs KeySet

/-- Where a call stands. -/
inductive Phase where
  /-- About to look the key up. -/
  | looking (kid : String)
  /-- About to ask, under the read lock, whether a refresh is due. -/
  | checking (kid : String)
  /-- About to ask again under the write lock, and to claim the refresh. -/
  | claiming (kid : String)
  /-- The refresh was claimed at a time, and its fetch has not ended. -/
  | fetching (kid : String) (since : ℕ)
  /-- About to look the key up again. -/
  | answering (kid : String)
  | answered (key : Option RsaKey)
  /-- The request was dropped where it waited. -/
  | dropped
  deriving DecidableEq

/-- When the fetch of a call that is fetching was claimed. -/
def Phase.since : Phase → Option ℕ
  | .fetching _ since => some since
  | _ => none

/-- What is remembered of a refresh. -/
inductive Entry where
  | start (time : ℕ)
  | success (time : ℕ)
  | failure (time : ℕ)
  deriving DecidableEq

/-- When it happened. -/
def Entry.time : Entry → ℕ
  | .start time => time
  | .success time => time
  | .failure time => time

section Machine

variable [UnicodeTables] [TokenLibraries]

/-- The verifier between two steps: its keys, its callers, the clock, and what happened,
the latest first. -/
structure Verifier where
  keys : Keys
  callers : List Phase
  clock : ℕ
  log : List Entry

/-- What may happen next. -/
inductive Act where
  | call (kid : String)
  /-- A caller takes its next step. The clock may be read a second time after a pause,
  and a fetch that ends brings a body, if any. -/
  | advance (who pause : ℕ) (body : Option String)
  | drop (who : ℕ)

/-- An act, and how long after the one before. -/
structure Event where
  delay : ℕ
  act : Act

/-- The keys once a fetch has ended, and how it is remembered. -/
def landed (keys : Keys) (since now later : ℕ) (body : Option String) : Keys × Entry :=
  match body with
  | none => (keys.failed ⟨since, none, now⟩, .failure now)
  | some text =>
    match h : parse text with
    | .error _ => (keys.failed ⟨since, some text, now⟩, .failure now)
    | .ok fresh => (⟨text, fresh, h, now, later + minRefreshInterval, 0⟩, .success later)

/-- One caller's next step, at a time. -/
def Verifier.advance (v : Verifier) (now who pause : ℕ) (body : Option String) : Verifier :=
  match v.callers[who]? with
  | some (.looking kid) =>
    match v.keys.byKid.lookup kid, decide (now - v.keys.fetchedAt < maxAge) with
    | some key, true => { v with callers := v.callers.set who (.answered (some key)) }
    | _, _ => { v with callers := v.callers.set who (.checking kid) }
  | some (.checking kid) =>
    if now < v.keys.retryAfter then { v with callers := v.callers.set who (.answering kid) }
    else { v with callers := v.callers.set who (.claiming kid) }
  | some (.claiming kid) =>
    if now < v.keys.retryAfter then { v with callers := v.callers.set who (.answering kid) }
    else
      { keys := { v.keys with retryAfter := now + pause + minRefreshInterval }
        callers := v.callers.set who (.fetching kid (now + pause))
        clock := now + pause
        log := .start (now + pause) :: v.log }
  | some (.fetching kid since) =>
    let (keys, entry) := landed v.keys since now (now + pause) body
    { keys := keys
      callers := v.callers.set who (.answering kid)
      clock := now + pause
      log := entry :: v.log }
  | some (.answering kid) =>
    { v with callers := v.callers.set who (.answered (v.keys.byKid.lookup kid)) }
  | _ => v

/-- The verifier after an event. -/
def step (v : Verifier) (e : Event) : Verifier :=
  let v := { v with clock := v.clock + e.delay }
  match e.act with
  | .call kid => { v with callers := v.callers ++ [.looking kid] }
  | .advance who pause body => v.advance v.clock who pause body
  | .drop who => { v with callers := v.callers.set who .dropped }

/-- When the fetches in flight were claimed. -/
def Verifier.inFlight (v : Verifier) : List ℕ := v.callers.filterMap Phase.since

/-- The verifier as it is loaded: the first document has just been read. -/
def Verifier.Fresh (v : Verifier) : Prop :=
  v.callers = [] ∧ v.log = [.success v.keys.fetchedAt] ∧ v.keys.fetchedAt ≤ v.clock ∧
    v.keys.retryAfter = v.keys.fetchedAt + minRefreshInterval ∧ v.keys.consecutiveFailures = 0

/-- No fetch is in flight for longer than the timeout. -/
def Within (timeout : ℕ) (v : Verifier) (e : Event) : Prop :=
  ∀ since ∈ v.inFlight, v.clock + e.delay ≤ since + timeout

instance (timeout : ℕ) (v : Verifier) (e : Event) : Decidable (Within timeout v e) :=
  inferInstanceAs (Decidable (∀ since ∈ v.inFlight, v.clock + e.delay ≤ since + timeout))

end Machine

/-- The failures since the last success. -/
def failuresSince : List Entry → ℕ
  | [] => 0
  | .start _ :: log => failuresSince log
  | .success _ :: _ => 0
  | .failure _ :: log => failuresSince log + 1

/-- What the counter of failures in a row shows: it stops at the bound of its type. -/
def counted (log : List Entry) : ℕ := min (failuresSince log) 0xFFFFFFFF

/-- Before when no fetch may start: the full interval after a start or a success, the
shorter one of the failures in a row after a failure. -/
def holdOff : List Entry → ℕ
  | [] => 0
  | .start time :: _ => time + minRefreshInterval
  | .success time :: _ => time + minRefreshInterval
  | .failure time :: log => time + failureBackoff (counted (.failure time :: log))

/-- Every fetch started once what stood before it held it off no longer. -/
def Spaced : List Entry → Prop
  | [] => True
  | .start time :: log => holdOff log ≤ time ∧ Spaced log
  | _ :: log => Spaced log

instance decidableSpaced : ∀ log, Decidable (Spaced log)
  | [] => isTrue trivial
  | .start time :: log =>
    have := decidableSpaced log
    inferInstanceAs (Decidable (holdOff log ≤ time ∧ Spaced log))
  | .success _ :: log => decidableSpaced log
  | .failure _ :: log => decidableSpaced log

section Discipline

variable [UnicodeTables] [TokenLibraries]

/-- What holds between any two steps. -/
structure Disciplined (v : Verifier) : Prop where
  /-- At most one fetch is in flight. -/
  one : v.inFlight.length ≤ 1
  /-- The fetch in flight holds its claim. -/
  claimed : ∀ since ∈ v.inFlight, v.keys.retryAfter = since + minRefreshInterval
  held : holdOff v.log ≤ v.keys.retryAfter
  spaced : Spaced v.log
  counts : v.keys.consecutiveFailures = counted v.log
  past : ∀ time ∈ v.log.map Entry.time, time ≤ v.clock
  ordered : (v.log.map Entry.time).Pairwise (· ≥ ·)

omit [UnicodeTables] [TokenLibraries] in
/-- A caller stands between those before it and those after it. -/
theorem callers_split {callers : List Phase} {who : ℕ} {p : Phase} (h : callers[who]? = some p) :
    ∃ before after, callers = before ++ p :: after ∧
      ∀ q, callers.set who q = before ++ q :: after := by
  obtain ⟨hlt, hp⟩ := List.getElem?_eq_some_iff.mp h
  refine ⟨callers.take who, callers.drop (who + 1), ?_, ?_⟩
  · rw [← hp, List.getElem_cons_drop, List.take_append_drop]
  · intro q
    rw [List.set_eq_take_append_cons_drop, if_pos hlt]

omit [UnicodeTables] [TokenLibraries] in
/-- A caller that moves on and does not fetch leaves in flight what was. -/
theorem inFlight_set_sublist (callers : List Phase) (who : ℕ) {q : Phase} (hq : q.since = none) :
    ((callers.set who q).filterMap Phase.since).Sublist (callers.filterMap Phase.since) := by
  cases h : callers[who]? with
  | none =>
    rw [List.set_eq_of_length_le (List.getElem?_eq_none_iff.mp h)]
  | some p =>
    obtain ⟨before, after, hcallers, hset⟩ := callers_split h
    rw [hset, hcallers]
    simp only [List.filterMap_append, List.filterMap_cons, hq]
    refine List.Sublist.append (List.Sublist.refl _) ?_
    cases p.since with
    | none => exact List.Sublist.refl _
    | some since => exact List.sublist_cons_self _ _

variable {v : Verifier}

/-- Time passes. -/
theorem Disciplined.later (h : Disciplined v) {now : ℕ} (hnow : v.clock ≤ now) :
    Disciplined { v with clock := now } where
  one := h.one
  claimed := h.claimed
  held := h.held
  spaced := h.spaced
  counts := h.counts
  past time htime := (h.past time htime).trans hnow
  ordered := h.ordered

/-- Callers move, and no fetch starts or ends well. -/
theorem Disciplined.move (h : Disciplined v) {callers : List Phase}
    (hcallers : (callers.filterMap Phase.since).Sublist v.inFlight) :
    Disciplined { v with callers := callers } where
  one := hcallers.length_le.trans h.one
  claimed since hsince := h.claimed since (hcallers.subset hsince)
  held := h.held
  spaced := h.spaced
  counts := h.counts
  past := h.past
  ordered := h.ordered

/-- A refresh is claimed: nothing else is in flight. -/
theorem Disciplined.claim (h : Disciplined v) {who now pause : ℕ} {kid : String}
    (hwho : v.callers[who]? = some (.claiming kid)) (hnow : v.clock = now)
    (hdue : ¬ now < v.keys.retryAfter)
    (hwithin : ∀ since ∈ v.inFlight, now < since + minRefreshInterval) :
    Disciplined
      { keys := { v.keys with retryAfter := now + pause + minRefreshInterval }
        callers := v.callers.set who (.fetching kid (now + pause))
        clock := now + pause
        log := .start (now + pause) :: v.log } := by
  have hnone : v.inFlight = [] := by
    rw [List.eq_nil_iff_forall_not_mem]
    intro since hsince
    have hclaimed := h.claimed since hsince
    have hyoung := hwithin since hsince
    omega
  obtain ⟨before, after, hcallers, hset⟩ := callers_split hwho
  have hflight : (v.callers.set who (.fetching kid (now + pause))).filterMap Phase.since =
      [now + pause] := by
    rw [Verifier.inFlight, hcallers, List.filterMap_append, List.append_eq_nil_iff] at hnone
    rw [hset, List.filterMap_append, List.filterMap_cons, hnone.1]
    have hafter : after.filterMap Phase.since = [] := hnone.2
    simp [Phase.since, hafter]
  have hheld := h.held
  refine ⟨?_, ?_, le_rfl, ⟨by omega, h.spaced⟩, h.counts, ?_, ?_⟩
  · rw [Verifier.inFlight, hflight]
    exact le_rfl
  · intro since hsince
    rw [Verifier.inFlight, hflight, List.mem_singleton] at hsince
    rw [hsince]
  · intro time htime
    rw [List.map_cons] at htime
    rcases List.mem_cons.mp htime with rfl | htime
    · exact le_rfl
    · have := h.past time htime
      change time ≤ now + pause
      omega
  · rw [List.map_cons, List.pairwise_cons]
    refine ⟨?_, h.ordered⟩
    intro time htime
    have := h.past time htime
    change time ≤ now + pause
    omega

/-- What a fetch that has ended leaves. -/
theorem landed_spec (keys : Keys) (since now later : ℕ) (body : Option String) :
    ((landed keys since now later body).2 = .failure now ∧
      (landed keys since now later body).1 = keys.failed ⟨since, body, now⟩) ∨
    ((landed keys since now later body).2 = .success later ∧
      (landed keys since now later body).1.retryAfter = later + minRefreshInterval ∧
      (landed keys since now later body).1.consecutiveFailures = 0) := by
  unfold landed
  cases body with
  | none => exact Or.inl ⟨rfl, rfl⟩
  | some text =>
    dsimp only
    split
    · exact Or.inl ⟨rfl, rfl⟩
    · exact Or.inr ⟨rfl, rfl, rfl⟩

omit [UnicodeTables] [TokenLibraries] in
/-- One more failure is counted, up to the bound. -/
theorem counted_failure (time : ℕ) (log : List Entry) :
    counted (.failure time :: log) = min (counted log + 1) 0xFFFFFFFF := by
  unfold counted
  rw [failuresSince]
  omega

/-- A fetch ends: it was the only one in flight. -/
theorem Disciplined.land (h : Disciplined v) {who now pause since : ℕ} {kid : String}
    {body : Option String} (hwho : v.callers[who]? = some (.fetching kid since))
    (hnow : v.clock = now) :
    Disciplined
      { keys := (landed v.keys since now (now + pause) body).1
        callers := v.callers.set who (.answering kid)
        clock := now + pause
        log := (landed v.keys since now (now + pause) body).2 :: v.log } := by
  obtain ⟨before, after, hcallers, hset⟩ := callers_split hwho
  have hflight : (v.callers.set who (.answering kid)).filterMap Phase.since = [] := by
    have hone := h.one
    rw [Verifier.inFlight, hcallers, List.filterMap_append, List.length_append,
      List.filterMap_cons] at hone
    simp only [Phase.since, List.length_cons] at hone
    have hbefore : before.filterMap Phase.since = [] := List.length_eq_zero_iff.mp (by omega)
    have hafter : after.filterMap Phase.since = [] := List.length_eq_zero_iff.mp (by omega)
    rw [hset, List.filterMap_append, List.filterMap_cons, hbefore, hafter]
    rfl
  have hspec := landed_spec v.keys since now (now + pause) body
  generalize landed v.keys since now (now + pause) body = result at hspec
  have htime : now ≤ result.2.time ∧ result.2.time ≤ now + pause := by
    rcases hspec with hfail | hok
    · rw [hfail.1]
      exact ⟨le_rfl, by simp [Entry.time]⟩
    · rw [hok.1]
      exact ⟨by simp [Entry.time], le_rfl⟩
  refine ⟨?_, ?_, ?_, ?_, ?_, ?_, ?_⟩
  · rw [Verifier.inFlight, hflight]
    exact Nat.zero_le 1
  · intro t ht
    rw [Verifier.inFlight, hflight] at ht
    cases ht
  · rcases hspec with hfail | hok
    · rw [hfail.1, hfail.2, holdOff, counted_failure, ← h.counts]
      exact le_rfl
    · rw [hok.1, hok.2.1]
      exact le_rfl
  · rcases hspec with hfail | hok
    · rw [hfail.1]
      exact h.spaced
    · rw [hok.1]
      exact h.spaced
  · rcases hspec with hfail | hok
    · rw [hfail.1, hfail.2, counted_failure, ← h.counts]
      rfl
    · rw [hok.1, hok.2.2]
      rfl
  · intro time ht
    rw [List.map_cons] at ht
    rcases List.mem_cons.mp ht with rfl | ht
    · exact htime.2
    · have := h.past time ht
      change time ≤ now + pause
      omega
  · rw [List.map_cons, List.pairwise_cons]
    refine ⟨?_, h.ordered⟩
    intro time ht
    have := h.past time ht
    omega

/-- A caller's next step keeps the discipline. -/
theorem Disciplined.advance (h : Disciplined v) {now who pause : ℕ} {body : Option String}
    (hnow : v.clock = now) (hwithin : ∀ since ∈ v.inFlight, now < since + minRefreshInterval) :
    Disciplined (v.advance now who pause body) := by
  have hmove : ∀ q : Phase, q.since = none →
      Disciplined { v with callers := v.callers.set who q } := by
    intro q hq
    exact h.move (inFlight_set_sublist v.callers who hq)
  unfold Verifier.advance
  cases hwho : v.callers[who]? with
  | none => exact h
  | some p =>
    cases p with
    | looking kid =>
      dsimp only
      split
      · exact hmove _ rfl
      · exact hmove _ rfl
    | checking kid =>
      dsimp only
      split
      · exact hmove _ rfl
      · exact hmove _ rfl
    | claiming kid =>
      dsimp only
      split
      · exact hmove _ rfl
      · rename_i hdue
        exact h.claim hwho hnow hdue hwithin
    | fetching kid since => exact h.land hwho hnow
    | answering kid => exact hmove _ rfl
    | answered key => exact h
    | dropped => exact h

/-- Every step keeps the discipline while no fetch outlives its claim. -/
theorem Disciplined.step {timeout : ℕ} (ht : timeout < minRefreshInterval) (h : Disciplined v)
    {e : Event} (hwithin : Within timeout v e) : Disciplined (step v e) := by
  have hlater := h.later (Nat.le_add_right v.clock e.delay)
  unfold KeyRefresh.step
  cases hact : e.act with
  | call kid =>
    refine hlater.move ?_
    rw [List.filterMap_append]
    simp [Phase.since, Verifier.inFlight]
  | advance who pause body =>
    refine hlater.advance rfl ?_
    intro since hsince
    have hyoung := hwithin since hsince
    change v.clock + e.delay < since + minRefreshInterval
    omega
  | drop who => exact hlater.move (inFlight_set_sublist v.callers who rfl)

/-- The verifier is disciplined as it is loaded. -/
theorem Verifier.Fresh.disciplined (h : v.Fresh) : Disciplined v := by
  obtain ⟨hcallers, hlog, hclock, hretry, hcount⟩ := h
  have hflight : v.inFlight = [] := by
    rw [Verifier.inFlight, hcallers]
    rfl
  refine ⟨by rw [hflight]; exact Nat.zero_le 1, by simp [hflight], ?_, ?_, ?_, ?_, ?_⟩
  · rw [hlog, hretry]
    exact le_rfl
  · rw [hlog]
    trivial
  · rw [hlog, hcount]
    rfl
  · rw [hlog]
    simpa [Entry.time] using hclock
  · rw [hlog]
    simp

/-- A fetch that brings no key document. -/
def Fails (body : Option String) : Prop := ∀ text ∈ body, ∀ keys, parse text ≠ .ok keys

/-- A failed fetch leaves the keys and the document they come from as they are. -/
theorem landed_fails {body : Option String} (hbody : Fails body) (keys : Keys)
    (since now later : ℕ) :
    (landed keys since now later body).1.document = keys.document ∧
      (landed keys since now later body).1.byKid = keys.byKid ∧
      (landed keys since now later body).1.fetchedAt = keys.fetchedAt ∧
      (landed keys since now later body).2 = .failure now := by
  unfold landed
  cases body with
  | none => exact ⟨rfl, rfl, rfl, rfl⟩
  | some text =>
    dsimp only
    split
    · exact ⟨rfl, rfl, rfl, rfl⟩
    · rename_i fresh hparse
      exact absurd hparse (hbody text rfl fresh)

/-- In every run whose fetches end within a timeout below the refresh interval, at most
one fetch is in flight. Each starts once what came before holds it off no longer: a full
interval after a start or a success, the backoff after a failure. The counter is that of
the failures since the last success, and a failed fetch leaves the keys as they are. -/
theorem refresh_disciplined {timeout : ℕ} (ht : timeout < minRefreshInterval) (hv : v.Fresh)
    {events : List Event} (h : Everywhere step (Within timeout) v events) :
    let w := run step v events
    w.inFlight.length ≤ 1 ∧
    Spaced w.log ∧ (w.log.map Entry.time).Pairwise (· ≥ ·) ∧
    w.keys.consecutiveFailures = min (failuresSince w.log) 0xFFFFFFFF ∧
    ∀ delay who pause kid since body, w.callers[who]? = some (.fetching kid since) → Fails body →
      (step w ⟨delay, .advance who pause body⟩).keys.document = w.keys.document ∧
      (step w ⟨delay, .advance who pause body⟩).keys.byKid = w.keys.byKid ∧
      (step w ⟨delay, .advance who pause body⟩).keys.fetchedAt = w.keys.fetchedAt := by
  intro w
  have hstep : ∀ (s : Verifier) (i : Event), Disciplined s → Within timeout s i →
      True ∧ Disciplined (step s i) := by
    intro s i hs hi
    exact ⟨trivial, hs.step ht hi⟩
  have hw : Disciplined w := (everywhere_of_invariant hstep hv.disciplined h).2
  refine ⟨hw.one, hw.spaced, hw.ordered, hw.counts, ?_⟩
  intro delay who pause kid since body hwho hbody
  have hfails := landed_fails hbody w.keys since (w.clock + delay) (w.clock + delay + pause)
  have hkeys : (step w ⟨delay, .advance who pause body⟩).keys =
      (landed w.keys since (w.clock + delay) (w.clock + delay + pause) body).1 := by
    unfold step Verifier.advance
    dsimp only
    rw [hwho]
  rw [hkeys]
  exact ⟨hfails.1, hfails.2.1, hfails.2.2.1⟩

/-- The steps of one call that runs alone. -/
def alone (v : Verifier) (fetch : Fetch) (kid : String) : List Event :=
  [⟨fetch.start - v.clock, .call kid⟩, ⟨0, .advance 0 0 none⟩, ⟨0, .advance 0 0 none⟩,
    ⟨0, .advance 0 0 none⟩, ⟨fetch.done - fetch.start, .advance 0 0 fetch.body⟩,
    ⟨0, .advance 0 0 none⟩]

/-- A refresh that reads no document leaves the keys as a failure does. -/
theorem refresh_of_error {keys : Keys} {fetch : Fetch} {text : String} {e : String}
    (hdue : ¬ fetch.start < keys.retryAfter) (hbody : fetch.body = some text)
    (hparse : parse text = .error e) : keys.refresh fetch = keys.failed fetch := by
  unfold Keys.refresh
  rw [if_neg hdue, hbody]
  dsimp only
  split
  · rfl
  · rename_i hok
    rw [hparse] at hok
    cases hok

/-- A refresh that reads a document takes its keys. -/
theorem refresh_of_ok {keys : Keys} {fetch : Fetch} {text : String}
    {fresh : List (String × RsaKey)} (hdue : ¬ fetch.start < keys.retryAfter)
    (hbody : fetch.body = some text) (hparse : parse text = .ok fresh) :
    keys.refresh fetch =
      ⟨text, fresh, hparse, fetch.done, fetch.done + minRefreshInterval, 0⟩ := by
  unfold Keys.refresh
  rw [if_neg hdue, hbody]
  dsimp only
  split
  · rename_i hno
    rw [hparse] at hno
    cases hno
  · rename_i hok
    rw [hparse] at hok
    cases hok
    rfl

/-- A claimed refresh ends as the refresh of one caller does. -/
theorem landed_eq_refresh {keys : Keys} {fetch : Fetch} (hdue : ¬ fetch.start < keys.retryAfter)
    (claimed : ℕ) : (landed { keys with retryAfter := claimed } fetch.start fetch.done fetch.done
      fetch.body).1 = keys.refresh fetch := by
  unfold landed
  cases hbody : fetch.body with
  | none =>
    unfold Keys.refresh
    rw [if_neg hdue, hbody]
    rfl
  | some text =>
    dsimp only
    split
    · rename_i hparse
      rw [refresh_of_error hdue hbody hparse]
      rfl
    · rename_i hparse
      rw [refresh_of_ok hdue hbody hparse]

/-- A call that runs alone answers, and leaves the keys, as one caller's call does. -/
theorem run_alone (hv : v.callers = []) {fetch : Fetch} (hstart : v.clock ≤ fetch.start)
    (hdone : fetch.start ≤ fetch.done) (kid : String) :
    (run step v (alone v fetch kid)).callers = [.answered (v.keys.withKey fetch kid).1] ∧
      (run step v (alone v fetch kid)).keys = (v.keys.withKey fetch kid).2 := by
  have hcalled : v.clock + (fetch.start - v.clock) = fetch.start := by omega
  have hended : fetch.start + (fetch.done - fetch.start) = fetch.done := by omega
  unfold Keys.withKey
  cases hkey : v.keys.byKid.lookup kid with
  | some key =>
    cases hold : decide (fetch.start - v.keys.fetchedAt < maxAge) with
    | true => simp [alone, step, Verifier.advance, hv, hcalled, hkey, hold]
    | false =>
      by_cases hdue : fetch.start < v.keys.retryAfter
      · simp [alone, step, Verifier.advance, hv, hcalled, hkey, hold, hdue, Keys.refresh]
      · have hland := landed_eq_refresh hdue (fetch.start + minRefreshInterval)
        simp [alone, step, Verifier.advance, hv, hcalled, hended, hkey, hold, hdue, hland]
  | none =>
    by_cases hdue : fetch.start < v.keys.retryAfter
    · simp [alone, step, Verifier.advance, hv, hcalled, hkey, hdue, Keys.refresh]
    · have hland := landed_eq_refresh hdue (fetch.start + minRefreshInterval)
      simp [alone, step, Verifier.advance, hv, hcalled, hended, hkey, hdue, hland]

end Discipline

section Sample

open TokenAcceptance

/-- A verifier as it is loaded. -/
def sampleVerifier : @Verifier asciiTables sampleLibraries :=
  let _ := asciiTables
  let _ := sampleLibraries
  ⟨{ sampleKeys with retryAfter := 300 }, [], 0, [.success 0]⟩

/-- Two calls for a key nobody publishes: the fetch of the first fails, and that of the
second starts as soon as it may. -/
def sampleEvents : List Event :=
  [⟨300, .call "x"⟩, ⟨0, .advance 0 0 none⟩, ⟨0, .advance 0 0 none⟩, ⟨0, .advance 0 0 none⟩,
    ⟨1, .advance 0 0 none⟩, ⟨15, .call "x"⟩, ⟨0, .advance 1 0 none⟩, ⟨0, .advance 1 0 none⟩,
    ⟨0, .advance 1 0 none⟩]

/-- It is loaded as a verifier is. -/
theorem sampleVerifier_fresh : @Verifier.Fresh asciiTables sampleLibraries sampleVerifier := by
  refine ⟨rfl, rfl, ?_, rfl, rfl⟩
  exact le_rfl

/-- No fetch of the sample takes more than ten seconds. -/
theorem sampleEvents_within :
    @Everywhere (@Verifier asciiTables sampleLibraries) Event
      (@step asciiTables sampleLibraries) (@Within asciiTables sampleLibraries 10)
      sampleVerifier sampleEvents := by
  decide

/-- What happened in a run of the sample's verifier, the latest first. -/
def sampleLog (v : @Verifier asciiTables sampleLibraries) (events : List Event) : List Entry :=
  let _ := asciiTables
  let _ := sampleLibraries
  (run step v events).log

/-- The times fetches were started, the latest first. -/
def starts (log : List Entry) : List ℕ :=
  log.filterMap fun
    | .start time => some time
    | _ => none

/-- Two calls, and a fetch of the first that takes as long as its claim holds. -/
def slowEvents : List Event :=
  [⟨300, .call "x"⟩, ⟨0, .advance 0 0 none⟩, ⟨0, .advance 0 0 none⟩, ⟨0, .advance 0 0 none⟩,
    ⟨300, .call "x"⟩, ⟨0, .advance 1 0 none⟩, ⟨0, .advance 1 0 none⟩, ⟨0, .advance 1 0 none⟩]

/-- No fetch of these takes more than five minutes. -/
theorem slowEvents_within :
    @Everywhere (@Verifier asciiTables sampleLibraries) Event
      (@step asciiTables sampleLibraries) (@Within asciiTables sampleLibraries 300)
      sampleVerifier slowEvents := by
  decide

/-- The fetches in flight after a run of the sample's verifier. -/
def sampleInFlight (v : @Verifier asciiTables sampleLibraries) (events : List Event) : List ℕ :=
  let _ := asciiTables
  let _ := sampleLibraries
  (run step v events).inFlight

/-- After a failed fetch the next one may start before the refresh interval has passed,
and a timeout as long as that interval lets two fetches be in flight. -/
theorem starts_sixteen_apart :
    (¬ ∀ (timeout : ℕ) (v : @Verifier asciiTables sampleLibraries) (events : List Event),
      @Verifier.Fresh asciiTables sampleLibraries v →
      @Everywhere (@Verifier asciiTables sampleLibraries) Event
        (@step asciiTables sampleLibraries) (@Within asciiTables sampleLibraries timeout) v events →
      List.IsChain (fun later earlier => earlier + minRefreshInterval ≤ later)
        (starts (sampleLog v events))) ∧
    ¬ ∀ (timeout : ℕ) (v : @Verifier asciiTables sampleLibraries) (events : List Event),
      @Verifier.Fresh asciiTables sampleLibraries v →
      @Everywhere (@Verifier asciiTables sampleLibraries) Event
        (@step asciiTables sampleLibraries) (@Within asciiTables sampleLibraries timeout) v events →
      (sampleInFlight v events).length ≤ 1 := by
  constructor
  · intro h
    have hchain := h 10 sampleVerifier sampleEvents sampleVerifier_fresh sampleEvents_within
    have hstarts : starts (sampleLog sampleVerifier sampleEvents) = [316, 300] := by
      decide
    rw [hstarts] at hchain
    revert hchain
    decide
  · intro h
    have hone := h 300 sampleVerifier slowEvents sampleVerifier_fresh slowEvents_within
    have hflight : sampleInFlight sampleVerifier slowEvents = [300, 600] := by decide
    rw [hflight] at hone
    revert hone
    decide

/-- The rule along those calls. -/
theorem refresh_disciplined_sample :
    Spaced (sampleLog sampleVerifier sampleEvents) :=
  (@refresh_disciplined asciiTables sampleLibraries sampleVerifier 10 (by decide)
    sampleVerifier_fresh sampleEvents sampleEvents_within).2.1

/-- A call of the sample's verifier that runs alone, and whose fetch fails. -/
theorem run_alone_sample :
    @Verifier.keys asciiTables sampleLibraries
        (@run (@Verifier asciiTables sampleLibraries) Event (@step asciiTables sampleLibraries)
          sampleVerifier (@alone asciiTables sampleLibraries sampleVerifier ⟨300, none, 310⟩ "x")) =
      (@Keys.withKey asciiTables sampleLibraries
        (@Verifier.keys asciiTables sampleLibraries sampleVerifier) ⟨300, none, 310⟩ "x").2 :=
  (@run_alone asciiTables sampleLibraries sampleVerifier rfl ⟨300, none, 310⟩ (by decide) (by decide)
    "x").2

end Sample

end Kerbridge.KeyRefresh

import Kerbridge.Flapping

/-!
# The countdown of a sync credential

After every cycle a source reports how long its credential lasts. A deadline within the
threshold is sent as a countdown, and one beyond it clears the condition. The step the
countdown was last in stays in the record when the condition is cleared.
-/

namespace Kerbridge.Notify

open Runs

/-- What is known of the expiry of a credential. -/
inductive CredentialState where
  /-- Read from the identity provider. -/
  | measured (days : ℤ)
  /-- Stated by the operator. -/
  | asserted (days : ℤ)
  | unknown
  deriving DecidableEq

/-- How many days are left, if that is known. -/
def CredentialState.days : CredentialState → Option ℤ
  | .measured days => some days
  | .asserted days => some days
  | .unknown => none

/-- The event of an expiring credential. -/
def credentialExpiring : String := "sync-credential-expiring"

/-- What is sent about a credential that expires. -/
def expiring (name subject : String) (days : ℤ) (severity : Severity) : Event where
  event := credentialExpiring
  severity := severity
  subject := subject
  message := "sync credential for source " ++ name ++ " expires in " ++ toString days ++ " days"
  detail := ""
  repeats := .countdown days
  kind := .condition

/-- The expiry of the credential of a source is reported. -/
def reportCredential (n : Notifier) (name subject : String) (warnBeforeDays : ℤ)
    (state : CredentialState) (now : ℕ) : List Posted × Notifier :=
  match state.days with
  | none => ([], n)
  | some days =>
    if days < 7 then n.send (expiring name subject days .error) now
    else if days ≤ warnBeforeDays then n.send (expiring name subject days .warning) now
    else n.resolveSubject credentialExpiring subject now

/-- What a cycle finds, and when. -/
structure Cycle where
  time : ℕ
  state : CredentialState

/-- Whether posts announce that the credential expires. -/
def announcesExpiry (subject : String) (posts : List Posted) : Bool :=
  !(announcements (postsOn credentialExpiring subject posts)).isEmpty

/-- What the cycles find, and whether each announces it. -/
def reports (name subject : String) (warn : ℤ) : Notifier → List Cycle →
    List (CredentialState × Bool)
  | _, [] => []
  | n, c :: cycles =>
    let (posts, n) := reportCredential n name subject warn c.state c.time
    (c.state, announcesExpiry subject posts) :: reports name subject warn n cycles

/-- Whether a deadline is within the threshold. -/
def Within (warn days : ℤ) : Prop := days < 7 ∨ days ≤ warn

instance (warn days : ℤ) : Decidable (Within warn days) :=
  inferInstanceAs (Decidable (days < 7 ∨ days ≤ warn))

/-- Every step within the threshold is announced by the first cycle that finds the deadline
in it, and none is announced twice, counted afresh whenever the deadline is beyond the
threshold. Some steps were found and some announced before. -/
def Rearmed (warn : ℤ) : List ℤ → List ℤ → List (CredentialState × Bool) → Prop
  | _, _, [] => True
  | found, told, (state, announced) :: rest =>
    match state.days with
    | none => Rearmed warn found told rest
    | some days =>
      if Within warn days then
        match band days with
        | none => Rearmed warn found told rest
        | some step =>
          (step ∉ found → step ≤ warn → announced = true) ∧
          (step ∈ told → announced = false) ∧
          Rearmed warn (step :: found) (if announced then step :: told else told) rest
      else Rearmed warn [] [] rest

/-- How far the day counts of a run are in the schedule. -/
structure Countdown where
  /-- The step of the deadline when it was last within the threshold. -/
  last : Option ℤ := none
  /-- The steps it was found in since it was last beyond the threshold. -/
  found : List ℤ := []
  /-- Those of them that were nearer than the step before. -/
  told : List ℤ := []

/-- Whether a step is nearer than the last one. -/
def nearer (last : Option ℤ) (step : ℤ) : Bool := last.all fun had => decide (step < had)

/-- What a day count makes of it. -/
def Countdown.next (warn : ℤ) (w : Countdown) (c : Cycle) : Countdown :=
  match c.state.days with
  | none => w
  | some days =>
    if Within warn days then
      match band days with
      | none => { w with last := none }
      | some step =>
        ⟨some step, step :: w.found, if nearer w.last step then step :: w.told else w.told⟩
    else { w with found := [], told := [] }

/-- A day count comes where the schedule expects it: a step that was not found yet is nearer
than the one before, and one that was announced is not. -/
def OnSchedule (warn : ℤ) (w : Countdown) (c : Cycle) : Prop :=
  ∀ days step, c.state.days = some days → Within warn days → band days = some step →
    (step ∉ w.found → step ≤ warn → nearer w.last step = true) ∧
    (step ∈ w.told → nearer w.last step = false)

section Reports

variable {n : Notifier} {name subject : String} {warn : ℤ}

/-- An event that is sent is announced exactly when it is due. -/
theorem announces_expiring (n : Notifier) (name subject : String) (days : ℤ)
    (severity : Severity) (now : ℕ) :
    n.announces credentialExpiring subject ⟨now, .send (expiring name subject days severity)⟩ =
      due (n.problems.records.find credentialExpiring subject) (expiring name subject days severity)
        now n.repeatInterval (n.deliverable severity) := by
  unfold Notifier.announces
  dsimp only
  rw [decide_eq_true ⟨rfl, rfl⟩, Bool.true_and]
  rfl

/-- Whether a call announces the expiry, from its posts. -/
theorem announcesExpiry_ask (hkeyed : Keyed n.problems.records) (c : Asked) :
    announcesExpiry subject (n.ask c).1 = n.announces credentialExpiring subject c := by
  obtain ⟨hann, hclear, hnone⟩ := @posts_ask n credentialExpiring subject hkeyed c
  unfold announcesExpiry announcements
  cases hannounces : n.announces credentialExpiring subject c with
  | true =>
    obtain ⟨p, hp, hkind, _⟩ := hann hannounces
    rw [hp, List.filter_cons_of_pos (by rw [hkind]; rfl)]
    rfl
  | false =>
    cases hclears : n.clears credentialExpiring subject c with
    | true =>
      obtain ⟨p, hp, hkind, _⟩ := hclear hclears
      rw [hp, List.filter_cons_of_neg (by rw [hkind]; exact Bool.false_ne_true)]
      rfl
    | false =>
      rw [hnone hannounces hclears]
      rfl

/-- A deadline that is sent is announced exactly when its step is nearer than the last, and
its step is then the last. -/
theorem send_expiring (hkeyed : Keyed n.problems.records) {severity : Severity}
    (hdeliverable : n.deliverable severity = true) (days : ℤ) (now : ℕ) :
    announcesExpiry subject (n.send (expiring name subject days severity) now).1 =
        (band days).any (nearer (bandAt n.problems credentialExpiring subject)) ∧
      bandAt (n.send (expiring name subject days severity) now).2.problems credentialExpiring
        subject = band days := by
  have hannounces := @announcesExpiry_ask n subject hkeyed
    ⟨now, .send (expiring name subject days severity)⟩
  rw [announces_expiring, hdeliverable] at hannounces
  refine ⟨hannounces.trans ?_, ?_⟩
  · have hdue := @due_iff n.problems (expiring name subject days severity) now n.repeatInterval true
    rw [Bool.eq_iff_iff]
    refine hdue.trans ?_
    rw [Option.any_eq_true]
    constructor
    · rintro ⟨_, step, hstep, hlater⟩
      refine ⟨step, hstep, Option.all_eq_true _ _ |>.mpr ?_⟩
      intro had hhad
      exact decide_eq_true (hlater had hhad)
    · rintro ⟨step, hstep, hnearer⟩
      refine ⟨rfl, step, hstep, ?_⟩
      intro had hhad
      exact of_decide_eq_true (Option.all_eq_true _ _ |>.mp hnearer had hhad)
  · have hmemory := (memory_raise n.problems (expiring name subject days severity) n.component now
      n.repeatInterval (n.deliverable severity) credentialExpiring subject).2
    rw [if_pos ⟨rfl, rfl⟩] at hmemory
    exact hmemory

/-- What one report announces and leaves, of the step the countdown was last in. -/
theorem report_step (hkeyed : Keyed n.problems.records) (hdeliverable : n.deliverable .warning = true)
    (c : Cycle) {w : Countdown} (hlast : bandAt n.problems credentialExpiring subject = w.last) :
    (∀ days, c.state.days = some days → Within warn days →
      announcesExpiry subject (reportCredential n name subject warn c.state c.time).1 =
        (band days).any (nearer w.last)) ∧
    bandAt (reportCredential n name subject warn c.state c.time).2.problems credentialExpiring
      subject = (w.next warn c).last := by
  have herror : n.deliverable .error = true := by
    unfold Notifier.deliverable at hdeliverable ⊢
    rw [Bool.and_eq_true, decide_eq_true_iff] at hdeliverable ⊢
    have hlevel : Severity.level .warning ≤ Severity.level .error := by decide
    obtain ⟨hchannel, hfloor⟩ := hdeliverable
    exact ⟨hchannel, Nat.le_trans hfloor hlevel⟩
  unfold reportCredential Countdown.next
  cases hdays : c.state.days with
  | none => exact ⟨fun days h => (nomatch h), hlast⟩
  | some days =>
    dsimp only
    have hnext : ∀ severity, n.deliverable severity = true → Within warn days →
        (∀ d, some days = some d → Within warn d →
          announcesExpiry subject (n.send (expiring name subject days severity) c.time).1 =
            (band d).any (nearer w.last)) ∧
        bandAt (n.send (expiring name subject days severity) c.time).2.problems
          credentialExpiring subject = (if Within warn days then
            match band days with
            | none => { w with last := none }
            | some step =>
              ⟨some step, step :: w.found,
                if nearer w.last step then step :: w.told else w.told⟩
          else { w with found := [], told := [] } : Countdown).last := by
      intro severity hloud hwithin
      obtain ⟨hannounced, hband⟩ :=
        @send_expiring n name subject hkeyed severity hloud days c.time
      rw [hlast] at hannounced
      refine ⟨?_, ?_⟩
      · intro d hd _
        cases hd
        exact hannounced
      · rw [hband, if_pos hwithin]
        cases band days with
        | none => rfl
        | some step => rfl
    by_cases hsoon : days < 7
    · rw [if_pos hsoon]
      exact hnext .error herror (Or.inl hsoon)
    · rw [if_neg hsoon]
      by_cases hwarned : days ≤ warn
      · rw [if_pos hwarned]
        exact hnext .warning hdeliverable (Or.inr hwarned)
      · have hbeyond : ¬Within warn days := by
          unfold Within
          omega
        rw [if_neg hwarned, if_neg hbeyond]
        refine ⟨?_, ?_⟩
        · intro d hd hwithin
          cases hd
          exact absurd hwithin hbeyond
        · exact (memory_resolveOne hkeyed credentialExpiring subject credentialExpiring
            subject).2.trans hlast

/-- A report leaves the records under their own keys, and what can be delivered. -/
theorem report_keeps (hkeyed : Keyed n.problems.records) (c : Cycle) :
    Keyed (reportCredential n name subject warn c.state c.time).2.problems.records ∧
      (reportCredential n name subject warn c.state c.time).2.deliverable = n.deliverable := by
  unfold reportCredential
  cases c.state.days with
  | none => exact ⟨hkeyed, rfl⟩
  | some days =>
    dsimp only
    split
    · exact ⟨keyed_ask hkeyed ⟨c.time, .send (expiring name subject days .error)⟩, rfl⟩
    · split
      · exact ⟨keyed_ask hkeyed ⟨c.time, .send (expiring name subject days .warning)⟩, rfl⟩
      · exact ⟨keyed_ask hkeyed ⟨c.time, .resolveSubject credentialExpiring subject⟩, rfl⟩

/-- The cycles of a run announce on schedule, from what was found and announced before,
exactly when every day count comes where the schedule expects it. -/
theorem rearmed_from (hkeyed : Keyed n.problems.records)
    (hdeliverable : n.deliverable .warning = true) (cycles : List Cycle) {w : Countdown}
    (hlast : bandAt n.problems credentialExpiring subject = w.last) :
    Rearmed warn w.found w.told (reports name subject warn n cycles) ↔
      Everywhere (Countdown.next warn) (OnSchedule warn) w cycles := by
  induction cycles generalizing n w with
  | nil => exact Iff.rfl
  | cons c cycles ih =>
    obtain ⟨hannounced, hband⟩ := @report_step n name subject warn hkeyed hdeliverable c w hlast
    obtain ⟨hkeyed', hdeliverable'⟩ := @report_keeps n name subject warn hkeyed c
    have hrest := ih hkeyed' (by rw [hdeliverable', hdeliverable]) hband
    change Rearmed warn w.found w.told ((c.state, announcesExpiry subject (reportCredential n name
      subject warn c.state c.time).1) :: reports name subject warn
        (reportCredential n name subject warn c.state c.time).2 cycles) ↔ OnSchedule warn w c ∧
        Everywhere (Countdown.next warn) (OnSchedule warn) (w.next warn c) cycles
    rw [← hrest]
    generalize reports name subject warn
      (reportCredential n name subject warn c.state c.time).2 cycles = rest
    generalize announcesExpiry subject
      (reportCredential n name subject warn c.state c.time).1 = announced at hannounced ⊢
    rw [Rearmed]
    unfold OnSchedule Countdown.next
    cases hdays : c.state.days with
    | none =>
      dsimp only
      exact (and_iff_right fun days step h => (nomatch h)).symm
    | some days =>
      dsimp only
      by_cases hwithin : Within warn days
      · have hcase := hannounced days hdays hwithin
        rw [if_pos hwithin, if_pos hwithin]
        cases hstep : band days with
        | none =>
          dsimp only
          refine (and_iff_right ?_).symm
          intro d step hd _ hsome
          cases hd
          rw [hstep] at hsome
          cases hsome
        | some step =>
          rw [hstep, Option.any_some] at hcase
          dsimp only
          rw [hcase, ← and_assoc]
          refine and_congr_left fun _ => ?_
          constructor
          · intro hexpected d step' hd _ hsome
            cases hd
            rw [hstep] at hsome
            cases hsome
            exact hexpected
          · intro hexpected
            exact hexpected days step rfl hwithin hstep
      · rw [if_neg hwithin, if_neg hwithin]
        refine (and_iff_right ?_).symm
        intro d step hd hwithin' _
        cases hd
        exact absurd hwithin' hwithin

/-- **The countdown of a credential** announces every step of every approach once, exactly
when no day count of the run finds a step out of the order of the steps before it. -/
theorem rearmed_iff (hkeyed : Keyed n.problems.records)
    (hfresh : n.problems.records.find credentialExpiring subject = none)
    (hdeliverable : n.deliverable .warning = true) (cycles : List Cycle) :
    Rearmed warn [] [] (reports name subject warn n cycles) ↔
      Everywhere (Countdown.next warn) (OnSchedule warn) {} cycles := by
  have hlast : bandAt n.problems credentialExpiring subject = ({} : Countdown).last := by
    unfold bandAt
    rw [hfresh]
    rfl
  exact rearmed_from hkeyed hdeliverable cycles hlast

end Reports

/-- A credential that comes into two steps, one after the other. -/
def approach : List Cycle := [⟨0, .measured 30⟩, ⟨86400, .measured 14⟩]

/-- Both steps of a single approach are announced. -/
theorem approach_rearmed : Rearmed 30 [] [] (reports "s" "k" 30 hourly approach) := by
  have hempty : Keyed hourly.problems.records := by
    intro event subject p hp
    simp [hourly, Records.find] at hp
  have hfresh : hourly.problems.records.find credentialExpiring "k" = none := by
    simp [hourly, Records.find]
  refine (rearmed_iff hempty hfresh rfl approach).mpr ⟨?_, ?_, trivial⟩
  · intro days step hdays _ hstep
    cases hdays
    cases hstep
    exact ⟨fun _ _ => rfl, fun h => absurd h List.not_mem_nil⟩
  · intro days step hdays _ hstep
    cases hdays
    cases hstep
    exact ⟨fun _ _ => by decide, fun h => absurd h (by decide)⟩

/-- A credential comes close to its expiry, is rotated, and nears its expiry again. -/
def rotation : List Cycle := [⟨0, .measured 3⟩, ⟨86400, .measured 365⟩, ⟨172800, .measured 30⟩]

/-- The first step of the approach after a rotation is not announced. -/
theorem rotation_silent :
    reports "s" "k" 30 hourly rotation =
        [(.measured 3, true), (.measured 365, false), (.measured 30, false)] ∧
      ¬Rearmed 30 [] [] (reports "s" "k" 30 hourly rotation) := by
  have hreports : reports "s" "k" 30 hourly rotation =
      [(.measured 3, true), (.measured 365, false), (.measured 30, false)] := by decide
  refine ⟨hreports, fun h => ?_⟩
  rw [hreports] at h
  have hannounced : false = true := h.2.2.1 (by decide) (by decide)
  cases hannounced

end Kerbridge.Notify

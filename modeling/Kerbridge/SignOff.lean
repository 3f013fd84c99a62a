import Kerbridge.BusySlot

/-!
# A sign-off, and what comes after it

A sign-off stops the agent, but not the worker that is on its way to a ticket: its result is
still current. What a sign-off guarantees is therefore a matter of what runs when it falls.
-/

namespace Kerbridge.ClientAgent

/-- Whether an event lands a ticket. -/
def Event.lands : Event → Bool
  | .signedIn _ _ _ _ _ => true
  | _ => false

/-- No sign-in, renewal or adoption is started in a step: a worker that is there to bring a
ticket was there before. -/
def StartsNone (c : Client) (_ : Label) (d : Client) : Prop :=
  ∀ w, Thread.worker w ∈ d.threads → w.signsIn = true →
    ∃ w', Thread.worker w' ∈ c.threads ∧ w'.signsIn = true ∧ w'.stamp = w.stamp

/-- Nothing brings a ticket. -/
def Settled (c : Client) : Prop :=
  (∀ t ∈ c.threads, t.signsIn = false) ∧ ∀ ev ∈ c.events, ev.lands = false

/-- Nothing is connected or newly expected, nothing brings a ticket, and the cache holds
no ticket that was not there. -/
structure SignedOff (tickets : List Ticket) (expectations : List String) (c : Client) : Prop where
  off : c.agent.phase.off = true
  expectations : c.agent.expectations = expectations
  settled : Settled c
  cache : ∀ t ∈ c.cache, t ∈ tickets

section Turns

variable {tickets : List Ticket} {expectations : List String} {i j : Option Holder}
  {c d : Client} {l : Label}

/-- An answer leaves what a thread is there for. -/
theorem signsIn_told (stamp : DiscoveryStamp) (ok : Bool) (t : Thread) :
    (t.told stamp ok).signsIn = t.signsIn := by
  cases t with
  | worker w =>
    unfold Thread.told
    dsimp only
    split
    · rfl
    · rfl
  | probe p => rfl
  | elevated action recheck => rfl
  | giveUp generation broker grant saved report => rfl
  | compensate stamp broker grant => rfl

/-- A sign-in that was started is there until the turn is over. -/
theorem signsIn_piece {x y : Option Holder × Client} (hpiece : Piece l x y)
    (h : ∃ t ∈ x.2.threads, t.signsIn = true) : ∃ t ∈ y.2.threads, t.signsIn = true := by
  obtain ⟨t, ht, hsigns⟩ := h
  cases hpiece with
  | quiet hquiet =>
    rw [hquiet.threads]
    exact ⟨t, ht, hsigns⟩
  | answered stamp ok =>
    refine ⟨t.told stamp ok, List.mem_map_of_mem ht, ?_⟩
    rw [signsIn_told]
    exact hsigns
  | spawned hnone hfit => exact ⟨t, List.mem_append_left _ ht, hsigns⟩
  | took hsome hfit hbusy htook =>
    rename_i c d u taker
    have hthreads : d.threads = c.threads ++ [u] := congrArg Shared.threads htook.shared
    change ∃ t ∈ d.threads, t.signsIn = true
    rw [hthreads]
    exact ⟨t, List.mem_append_left _ ht, hsigns⟩
  | gave hl hgave =>
    rename_i c d giver
    have hthreads : d.threads = c.threads := congrArg Shared.threads hgave.shared
    change ∃ t ∈ d.threads, t.signsIn = true
    rw [hthreads]
    exact ⟨t, ht, hsigns⟩
  | ignored hother => exact ⟨t, ht, hsigns⟩
  | handed url grant => exact ⟨t, List.mem_append_left _ ht, hsigns⟩
  | landed hl hsteady hpublished =>
    rw [hsteady.threads]
    exact ⟨t, ht, hsigns⟩
  | published hl hsteady hpublished hexpectations hoff =>
    rw [hsteady.threads]
    exact ⟨t, ht, hsigns⟩
  | cleared hl hsteady hpublished hexpectations hoff =>
    rw [hsteady.threads]
    exact ⟨t, ht, hsigns⟩

/-- What holds while a turn goes on: a sign-in has been started in it, or nothing is
connected, expected or added to the cache. -/
def StaysOff (tickets : List Ticket) (expectations : List String) (c : Client) : Prop :=
  (∃ t ∈ c.threads, t.signsIn = true) ∨
    (c.agent.phase.off = true ∧ c.agent.expectations = expectations ∧
      ∀ t ∈ c.cache, t ∈ tickets)

/-- No piece connects the agent, unless it lands a ticket. -/
theorem staysOff_piece (hl : ∀ stamp injected realm effects viaGrant,
      l ≠ .deliver (.signedIn stamp injected realm effects viaGrant))
    {x y : Option Holder × Client} (h : StaysOff tickets expectations x.2)
    (hpiece : Piece l x y) : StaysOff tickets expectations y.2 := by
  rcases h with hsigns | ⟨hoff, hexpectations, hcache⟩
  · exact Or.inl (signsIn_piece hpiece hsigns)
  · cases hpiece with
    | quiet hquiet =>
      exact Or.inr ⟨hquiet.off hoff, hquiet.expectations.trans hexpectations,
        fun t ht => hcache t (hquiet.cache t ht)⟩
    | answered stamp ok => exact Or.inr ⟨hoff, hexpectations, hcache⟩
    | spawned ht hfit => exact Or.inr ⟨hoff, hexpectations, hcache⟩
    | took ht hfit hbusy htook =>
      rename_i c d u taker
      rcases htook.off with hsigns | hkept
      · have hthreads : d.threads = c.threads ++ [u] := congrArg Shared.threads htook.shared
        left
        refine ⟨u, ?_, hsigns⟩
        change u ∈ d.threads
        rw [hthreads]
        exact List.mem_append_right _ List.mem_cons_self
      · have hsame : d.cache = c.cache := congrArg Shared.cache htook.shared
        refine Or.inr ⟨hkept hoff, htook.expectations.trans hexpectations, ?_⟩
        change ∀ t ∈ d.cache, t ∈ tickets
        rw [hsame]
        exact hcache
    | gave hown hgave =>
      rename_i c d giver
      have hsame : d.cache = c.cache := congrArg Shared.cache hgave.shared
      refine Or.inr ⟨hgave.off hoff, hgave.expectations.trans hexpectations, ?_⟩
      change ∀ t ∈ d.cache, t ∈ tickets
      rw [hsame]
      exact hcache
    | ignored hother => exact Or.inr ⟨hoff, hexpectations, hcache⟩
    | handed url grant => exact Or.inr ⟨hoff, hexpectations, hcache⟩
    | landed hsigned hsteady hpublished => exact absurd hsigned (hl _ _ _ _ _)
    | published hdocument hsteady hpublished hkept hphase =>
      exact Or.inr ⟨hphase hoff, hkept.trans hexpectations,
        fun t ht => hcache t (hsteady.cache t ht)⟩
    | cleared hsheet hsteady hpublished hkept hphase =>
      exact Or.inr ⟨hphase, hkept.trans hexpectations,
        fun t ht => hcache t (hsteady.cache t ht)⟩

/-- A turn in which no sign-in is started, and no ticket lands, leaves the agent signed off. -/
theorem off_pieces (hl : ∀ stamp injected realm effects viaGrant,
      l ≠ .deliver (.signedIn stamp injected realm effects viaGrant))
    (hoff : c.agent.phase.off = true) (hexpectations : c.agent.expectations = expectations)
    (hcache : ∀ t ∈ c.cache, t ∈ tickets) (hpieces : Pieces l (i, c) (j, d))
    (hnone : ∀ t ∈ d.threads, t.signsIn = false) :
    d.agent.phase.off = true ∧ d.agent.expectations = expectations ∧ ∀ t ∈ d.cache, t ∈ tickets := by
  have hstays : StaysOff tickets expectations d :=
    @Pieces.keeps l (fun x => StaysOff tickets expectations x.2)
      (fun x y h hpiece => staysOff_piece hl h hpiece) _ _ hpieces
      (Or.inr ⟨hoff, hexpectations, hcache⟩)
  rcases hstays with ⟨t, ht, hsigns⟩ | hkept
  · rw [hnone t ht] at hsigns
    cases hsigns
  · exact hkept

/-- No piece adds to the queue. -/
theorem events_piece {x y : Option Holder × Client} (hpiece : Piece l x y) :
    y.2.events = x.2.events := by
  cases hpiece with
  | quiet hquiet => exact hquiet.events
  | answered stamp ok => rfl
  | spawned ht hfit => rfl
  | took ht hfit hbusy htook => exact congrArg Shared.events htook.shared
  | gave hl hgave => exact congrArg Shared.events hgave.shared
  | ignored hother => rfl
  | handed url grant => rfl
  | landed hl hsteady hpublished => exact hsteady.events
  | published hl hsteady hpublished hexpectations hoff => exact hsteady.events
  | cleared hl hsteady hpublished hexpectations hoff => exact hsteady.events

/-- No turn adds to the queue. -/
theorem events_pieces (hpieces : Pieces l (i, c) (j, d)) : d.events = c.events :=
  @Pieces.keeps l (fun x => x.2.events = c.events)
    (fun _ _ h hpiece => (events_piece hpiece).trans h) _ _ hpieces rfl

end Turns

section Threads

variable {cancel : Bool} {refreshToken : Option String} {cache cache' : List Ticket}

/-- A worker that is not there to bring a ticket puts none into the cache, and says of none
that it landed. -/
theorem lands_moves {w : Worker} {w' : Option Worker} {ev : Option Event}
    (hfit : w.fit = true) (hother : w.signsIn = false)
    (h : w.Moves cancel refreshToken cache w' ev cache') :
    cache' = cache ∧ ∀ e ∈ ev, e.lands = false := by
  have hsignIn : ∀ trigger native grant pin, w.work ≠ .signIn trigger native grant pin := by
    intro trigger native grant pin hwork
    unfold Worker.signsIn at hother
    rw [hwork] at hother
    cases hother
  have hinject : ∀ document, w.leg ≠ .act document .injectToken := by
    intro document hleg
    unfold Worker.fit at hfit
    rw [hleg] at hfit
    cases hwork : w.work with
    | signIn trigger native grant pin => exact hsignIn _ _ _ _ hwork
    | createGrant native target => rw [hwork] at hfit; cases hfit
    | cloudSignOut => rw [hwork] at hfit; cases hfit
  have hfailed : ∀ fault (v : Worker), (v.failed fault).lands = false := by
    intro fault v
    unfold Worker.failed
    cases v.work with
    | signIn trigger native grant pin => rfl
    | createGrant native target => rfl
    | cloudSignOut => rfl
  have hcancelled : ∀ v : Worker, v.cancelled.lands = false := by
    intro v
    unfold Worker.cancelled
    cases v.work with
    | signIn trigger native grant pin => rfl
    | createGrant native target => rfl
    | cloudSignOut => rfl
  have hone : ∀ e : Event, e.lands = false → ∀ e' ∈ some e, e'.lands = false := by
    intro e he e' hmem
    cases hmem
    exact he
  have hno : ∀ e ∈ (none : Option Event), e.lands = false := by
    intro e hmem
    cases hmem
  cases h with
  | fetchFailed fault h => exact ⟨rfl, hone _ (hfailed _ _)⟩
  | fetched document h => exact ⟨rfl, hone _ rfl⟩
  | refused h => exact ⟨rfl, hone _ (hcancelled _)⟩
  | published h => exact ⟨rfl, hno⟩
  | oidcFailed fault h => exact ⟨rfl, hone _ (hfailed _ _)⟩
  | grantsOff h hwork hoff => exact ⟨rfl, hone _ (hfailed _ _)⟩
  | discovered h hon => exact ⟨rfl, hone _ rfl⟩
  | superseded h => exact ⟨rfl, hone _ (hcancelled _)⟩
  | confirmed h => exact ⟨rfl, hno⟩
  | noGrant h hwork => exact absurd hwork (hsignIn _ _ _ _)
  | noGrantPinned h hwork => exact absurd hwork (hsignIn _ _ _ _)
  | proved injected h hwork hcache => exact absurd hwork (hsignIn _ _ _ _)
  | proofRefused invalid h hwork => exact absurd hwork (hsignIn _ _ _ _)
  | proofRefusedPinned invalid h hwork => exact absurd hwork (hsignIn _ _ _ _)
  | proofFailed fault h hwork hcache => exact absurd hwork (hsignIn _ _ _ _)
  | acquired h heffects => exact ⟨rfl, hone _ rfl⟩
  | dismissed h hloud hcancel => exact ⟨rfl, hone _ (hcancelled _)⟩
  | acquireFailed fault h => exact ⟨rfl, hone _ (hfailed _ _)⟩
  | injected injected h hcache => exact absurd h (hinject _)
  | injectFailed fault h hcache => exact absurd h (hinject _)
  | registered grant h => exact ⟨rfl, hone _ rfl⟩
  | registerFailed fault h => exact ⟨rfl, hone _ (hfailed _ _)⟩
  | loggedOut asked h => exact ⟨rfl, hone _ rfl⟩
  | panicked hguarded hruns => exact ⟨rfl, hone _ (hfailed _ _)⟩

/-- The same of a thread. -/
theorem lands_threadMoves {t : Thread} {t' : Option Thread} {ev : Option Event}
    {given : Option (Option String × Grant)} (hfit : t.fit = true) (hother : t.signsIn = false)
    (h : t.Moves cancel refreshToken cache t' ev cache' given) :
    cache' = cache ∧ ∀ e ∈ ev, e.lands = false := by
  have hone : ∀ e : Event, e.lands = false → ∀ e' ∈ some e, e'.lands = false := by
    intro e he e' hmem
    cases hmem
    exact he
  cases h with
  | worker h => exact lands_moves hfit hother h
  | lookedUp generation url => exact ⟨rfl, hone _ rfl⟩
  | probed stamp snapshot => exact ⟨rfl, hone _ rfl⟩
  | probeFailed stamp => exact ⟨rfl, hone _ rfl⟩
  | elevating action recheck => exact ⟨rfl, hone _ rfl⟩
  | elevated action recheck outcome => exact ⟨rfl, hone _ rfl⟩
  | gaveUp generation broker grant saved report revoked => exact ⟨rfl, hone _ rfl⟩
  | compensated stamp broker grant => exact ⟨rfl, hone _ rfl⟩

end Threads

section Runs

variable {tickets : List Ticket} {expectations : List String} {os : Os} {c d : Client}
  {l : Label}

/-- Where no sign-in runs, a step that starts none leaves none. -/
theorem StartsNone.settled (h : StartsNone c l d) (hc : ∀ t ∈ c.threads, t.signsIn = false) :
    ∀ t ∈ d.threads, t.signsIn = false := by
  intro t ht
  cases t with
  | worker w =>
    cases hsigns : w.signsIn with
    | false => exact hsigns
    | true =>
      obtain ⟨w', hw', hsigns', _⟩ := h w ht hsigns
      have hfalse := hc _ hw'
      change w'.signsIn = false at hfalse
      rw [hsigns'] at hfalse
      cases hfalse
  | probe p => rfl
  | elevated action recheck => rfl
  | giveUp generation broker grant saved report => rfl
  | compensate stamp broker grant => rfl

/-- A step that starts no sign-in leaves the agent signed off. -/
theorem signedOff_step (horderly : Orderly c) (h : SignedOff tickets expectations c)
    (hstep : Step c l d) (hstarts : StartsNone c l d) : SignedOff tickets expectations d := by
  have hnone := hstarts.settled h.settled.1
  have hturn : ∀ (l : Label) (i : Option Holder) (b e : Client),
      (∀ stamp injected realm effects viaGrant,
        l ≠ .deliver (.signedIn stamp injected realm effects viaGrant)) →
      b.agent = c.agent → b.cache = c.cache → (∀ ev ∈ b.events, ev ∈ c.events) →
      Pieces l (i, b) (none, e) → (∀ t ∈ e.threads, t.signsIn = false) →
      SignedOff tickets expectations e := by
    intro l i b e hl hagent hcache hevents hpieces hthreads
    have hbefore : b.agent.phase.off = true := by
      rw [hagent]
      exact h.off
    have hheld : b.agent.expectations = expectations := by
      rw [hagent]
      exact h.expectations
    have htickets : ∀ t ∈ b.cache, t ∈ tickets := by
      rw [hcache]
      exact h.cache
    obtain ⟨hoff, hexpected, hkept⟩ := off_pieces hl hbefore hheld htickets hpieces hthreads
    refine ⟨hoff, hexpected, ⟨hthreads, ?_⟩, hkept⟩
    intro ev hev
    rw [events_pieces hpieces] at hev
    exact h.settled.2 ev (hevents ev hev)
  cases hstep with
  | command os hclock cmd =>
    exact hturn (.command cmd) none c _ nofun rfl rfl (fun _ hev => hev)
      ((pieces_command cmd).quiet quiet_settle) hnone
  | deliver os hclock hev =>
    rename_i before after ev
    have hmem : ev ∈ c.events := by
      rw [hev]
      exact List.mem_append_right _ List.mem_cons_self
    have hkept : ∀ e ∈ before ++ after, e ∈ c.events := by
      intro e he
      rw [hev]
      rcases List.mem_append.mp he with he | he
      · exact List.mem_append_left _ he
      · exact List.mem_append_right _ (List.mem_cons_of_mem _ he)
    refine hturn (.deliver ev) ev.holder { c with events := before ++ after } _ ?_ rfl rfl hkept
      ((pieces_applyEvent ev).quiet quiet_settle) hnone
    intro stamp injected realm effects viaGrant hl
    cases hl
    have hlands := h.settled.2 _ hmem
    cases hlands
  | thread ht hmoves =>
    rename_i before after t t' ev cache given
    have hmem : t ∈ c.threads := by
      rw [ht]
      exact List.mem_append_right _ List.mem_cons_self
    obtain ⟨hcache, hlands⟩ :=
      lands_threadMoves (horderly.fit t hmem) (h.settled.1 t hmem) hmoves
    refine ⟨h.off, h.expectations, ⟨hnone, ?_⟩, ?_⟩
    · intro e he
      rcases List.mem_append.mp he with he | he
      · exact h.settled.2 e he
      · exact hlands e (Option.mem_toList.mp he)
    · change ∀ t ∈ cache, t ∈ tickets
      rw [hcache]
      exact h.cache
  | rewrite disk => exact ⟨h.off, h.expectations, ⟨hnone, h.settled.2⟩, h.cache⟩

/-- What a sign-off does by itself. -/
theorem signedOff_dropTicket (hsettled : Settled c) :
    SignedOff (c.dropTicket os).cache c.agent.expectations
      ((c.command os .dropTicket).settle os) := by
  have hquiet : Quiet c (c.dropTicket os) := quiet_dropTicket
  refine ⟨off_dropTicket, hquiet.expectations, ⟨?_, ?_⟩, fun t ht => ht⟩
  · change ∀ t ∈ (c.dropTicket os).threads, t.signsIn = false
    rw [hquiet.threads]
    exact hsettled.1
  · change ∀ ev ∈ (c.dropTicket os).events, ev.lands = false
    rw [hquiet.events]
    exact hsettled.2

end Runs

section Sample

/-- The sample's user signs off while the worker is about to prove the grant. -/
def droppedClient : Client :=
  (actingClient.command (sampleOs 0 none) .dropTicket).settle (sampleOs 0 none)

/-- The ticket lands after the sign-off. -/
def landedAfter : Client :=
  { droppedClient with
    threads := [.probe (.config ⟨"https://broker.example", 1⟩)]
    events := [.signedIn sampleStamp ⟨"anna@EXAMPLE.SITE", 0, 1000, 0⟩ "EXAMPLE.SITE"
      ⟨none, false, none, some "EXAMPLE.SITE"⟩ (some "grant")]
    cache := [⟨"EXAMPLE.SITE", sampleStamp⟩] }

/-- A probe brings no ticket. -/
theorem startsNone_probe {c d : Client} {l : Label} {p : Probe} (h : d.threads = [.probe p]) :
    StartsNone c l d := by
  intro w hw
  rw [h] at hw
  cases hw with
  | tail _ hw => cases hw

end Sample

end Kerbridge.ClientAgent

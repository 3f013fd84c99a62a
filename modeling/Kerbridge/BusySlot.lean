import Kerbridge.TurnPieces

/-!
# The busy slot and the stamps

Work of many kinds shares one slot, a generation counter and a queue. Over every
interleaving the slot goes from hand to hand, each operation gives it back once, and a
result that is not current is undone.
-/

namespace Kerbridge.ClientAgent

section Slot

/-- The history of the slot, the newest first, with its holder: it is taken while nobody
holds it, under a stamp that is new, and given back by its holder. -/
inductive Passed : List SlotEntry → Option Holder → Prop
  | start : Passed [] none
  | took {log : List SlotEntry} {holder : Holder} (h : Passed log none)
      (hfresh : ∀ stamp, holder = .stamped stamp → .took holder ∉ log) :
      Passed (.took holder :: log) (some holder)
  | gave {log : List SlotEntry} {holder : Holder} (h : Passed log (some holder)) :
      Passed (.gave holder :: log) none

/-- Who holds the slot: the one operation that is outstanding, when there is one. The hold
of an event that is being applied is not in the queue any more. -/
structure Slotted (i : Option Holder) (c : Client) (holder : Option Holder) : Prop where
  outstanding : (i.toList ++ c.holders).Perm holder.toList
  busy : c.busy = holder.isSome
  operation : c.agent.busyOperation.map BusyOperation.stamp = holder.bind Holder.stamp
  passed : Passed c.slot holder
  stamps : ∀ stamp, SlotEntry.took (.stamped stamp) ∈ c.slot →
    stamp.generation ≤ c.agent.discoveryGeneration

variable {i : Option Holder} {c d : Client} {holder : Option Holder} {l : Label}

/-- What leaves the slot, the threads and the queue leaves the holder. -/
theorem Slotted.steady (h : Slotted i c holder) (hsteady : Steady c d) :
    Slotted i d holder where
  outstanding := by
    have hholders : d.holders = c.holders := by
      unfold Client.holders
      rw [hsteady.threads, hsteady.events]
    rw [hholders]
    exact h.outstanding
  busy := hsteady.busy.trans h.busy
  operation := by
    rw [hsteady.operation]
    exact h.operation
  passed := by
    rw [hsteady.slot]
    exact h.passed
  stamps stamp hstamp := by
    rw [hsteady.slot] at hstamp
    exact (h.stamps stamp hstamp).trans hsteady.generation

/-- An answer leaves what a thread holds. -/
theorem holder_told (stamp : DiscoveryStamp) (ok : Bool) (t : Thread) :
    (t.told stamp ok).holder = t.holder := by
  cases t with
  | worker w =>
    unfold Thread.told
    dsimp only
    split
    · rfl
    · rfl
  | probe p => rfl
  | elevated action recheck => rfl
  | giveUp generation broker grant saved report => rfl
  | compensate stamp broker grant => rfl

/-- Who answers a worker leaves who is outstanding. -/
theorem holders_answer (stamp : DiscoveryStamp) (ok : Bool) :
    (c.answer stamp ok).holders = c.holders := by
  have hsame : Thread.holder ∘ Thread.told stamp ok = Thread.holder :=
    funext (holder_told stamp ok)
  unfold Client.holders Client.answer
  dsimp only
  rw [List.filterMap_map, hsame]

/-- A thread that is started is outstanding with what it holds. -/
theorem holders_start {t : Thread} (hthreads : d.threads = c.threads ++ [t])
    (hevents : d.events = c.events) : d.holders.Perm (t.holder.toList ++ c.holders) := by
  have hone : [t].filterMap Thread.holder = t.holder.toList := by
    cases hholder : t.holder with
    | none => simp [hholder]
    | some holder => simp [hholder]
  unfold Client.holders
  rw [hthreads, hevents, List.filterMap_append, hone, List.append_assoc]
  exact (List.perm_append_comm_assoc _ _ _)

/-- Nobody holds a free slot. -/
theorem Slotted.free (h : Slotted none c holder) (hbusy : c.busy = false) :
    holder = none ∧ c.holders = [] := by
  have hholder : holder = none := by
    have hsome := h.busy
    rw [hbusy] at hsome
    cases holder with
    | none => rfl
    | some holder => cases hsome
  have houtstanding := h.outstanding
  rw [hholder] at houtstanding
  exact ⟨hholder, List.perm_nil.mp houtstanding⟩

/-- Whose event is applied holds the slot, and nobody else is outstanding. -/
theorem Slotted.own {held : Holder} (h : Slotted (some held) c holder) :
    holder = some held ∧ c.holders = [] := by
  have houtstanding := h.outstanding
  cases holder with
  | none =>
    have hlength := houtstanding.length_eq
    simp at hlength
  | some other =>
    have hsingle := List.perm_singleton.mp houtstanding
    have hsame : held = other ∧ c.holders = [] := by simpa using hsingle
    exact ⟨congrArg some hsame.1.symm, hsame.2⟩

/-- A piece passes the slot on, or leaves it. -/
theorem slotted_piece {x y : Option Holder × Client} (h : ∃ holder, Slotted x.1 x.2 holder)
    (hpiece : Piece l x y) : ∃ holder, Slotted y.1 y.2 holder := by
  obtain ⟨holder, h⟩ := h
  cases hpiece with
  | quiet hquiet => exact ⟨holder, h.steady hquiet.toSteady⟩
  | answered stamp ok =>
    refine ⟨holder, ?_, h.busy, h.operation, h.passed, h.stamps⟩
    rw [holders_answer]
    exact h.outstanding
  | spawned ht hfit =>
    rename_i i c t
    have hstarted := @holders_start c { c with threads := c.threads ++ [t] } t rfl rfl
    rw [ht] at hstarted
    exact ⟨holder, (hstarted.append_left _).trans h.outstanding, h.busy, h.operation, h.passed,
      h.stamps⟩
  | took ht hfit hbusy htook =>
    rename_i c d t taker
    obtain ⟨hnone, hholders⟩ := h.free hbusy
    subst hnone
    have hslot : d.slot = .took taker :: c.slot := congrArg Shared.slot htook.shared
    have hstarted := holders_start (congrArg Shared.threads htook.shared)
      (congrArg Shared.events htook.shared)
    rw [ht, hholders] at hstarted
    have hoperation : c.agent.busyOperation.map BusyOperation.stamp = none := h.operation
    refine ⟨some taker, hstarted, congrArg Shared.busy htook.shared, ?_, ?_, ?_⟩
    · rw [htook.operation, hoperation]
      cases taker with
      | stamped stamp => rfl
      | elevated action => rfl
    · rw [hslot]
      refine .took h.passed ?_
      intro stamp hstamp hmem
      rw [hstamp] at hmem
      exact absurd (h.stamps stamp hmem) (not_le.mpr (htook.fresh stamp hstamp).1)
    · intro stamp hmem
      rw [hslot] at hmem
      cases hmem with
      | head => exact (htook.fresh stamp rfl).2
      | tail _ hmem => exact (h.stamps stamp hmem).trans htook.generation
  | gave hl hgave =>
    rename_i c d giver
    obtain ⟨hsome, hholders⟩ := h.own
    subst hsome
    have hslot : d.slot = .gave giver :: c.slot := congrArg Shared.slot hgave.shared
    have hsame : d.holders = c.holders := by
      unfold Client.holders
      rw [show d.threads = c.threads from congrArg Shared.threads hgave.shared,
        show d.events = c.events from congrArg Shared.events hgave.shared]
    refine ⟨none, ?_, congrArg Shared.busy hgave.shared, ?_, ?_, ?_⟩
    · rw [hsame, hholders]
      exact List.Perm.refl _
    · rcases hgave.operation with hnone | ⟨action, haction, hkept⟩
      · rw [hnone]
        rfl
      · have hoperation := h.operation
        rw [haction] at hoperation
        rw [hkept]
        exact hoperation
    · rw [hslot]
      exact .gave h.passed
    · intro stamp hmem
      rw [hslot] at hmem
      cases hmem with
      | tail _ hmem => exact (h.stamps stamp hmem).trans hgave.generation
  | ignored hother =>
    obtain ⟨hsome, _⟩ := h.own
    subst hsome
    exact absurd h.operation hother
  | handed url grant =>
    rename_i c stamp
    obtain ⟨hsome, hholders⟩ := h.own
    subst hsome
    have hstarted := @holders_start c
      { c with threads := c.threads ++ [.compensate stamp url grant] } _ rfl rfl
    rw [hholders] at hstarted
    exact ⟨some (.stamped stamp), hstarted, h.busy, h.operation, h.passed, h.stamps⟩
  | landed hl hsteady hpublished => exact ⟨holder, h.steady hsteady⟩
  | published hl hsteady hpublished hexpectations hoff => exact ⟨holder, h.steady hsteady⟩
  | cleared hl hsteady hpublished hexpectations hoff => exact ⟨holder, h.steady hsteady⟩

/-- A worker's failure ends its hold. -/
theorem holder_failed (fault : Option Fault) (w : Worker) : (w.failed fault).holder = w.holder := by
  unfold Worker.failed Worker.holder
  cases hwork : w.work with
  | signIn trigger native grant pin => rfl
  | createGrant native target => rfl
  | cloudSignOut => rfl

/-- So does its cancellation. -/
theorem holder_cancelled (w : Worker) : w.cancelled.holder = w.holder := by
  unfold Worker.cancelled Worker.holder
  cases hwork : w.work with
  | signIn trigger native grant pin => rfl
  | createGrant native target => rfl
  | cloudSignOut => rfl

variable {cancel : Bool} {refreshToken : Option String} {cache cache' : List Ticket}

/-- What a worker holds before a step of it, it holds after it, or its last event does. -/
theorem holder_moves {w : Worker} {w' : Option Worker} {ev : Option Event}
    (hfit : w.fit = true) (h : w.Moves cancel refreshToken cache w' ev cache') :
    (w'.bind Worker.holder).toList ++ (ev.bind Event.holder).toList = w.holder.toList := by
  have hact : ∀ document errand, w.leg = .act document errand → w.work.does errand = true := by
    intro document errand hleg
    unfold Worker.fit at hfit
    rw [hleg] at hfit
    exact hfit
  cases h with
  | fetchFailed fault h => exact congrArg Option.toList (holder_failed fault w)
  | oidcFailed fault h => exact congrArg Option.toList (holder_failed fault w)
  | grantsOff h hwork hoff => exact congrArg Option.toList (holder_failed _ w)
  | acquireFailed fault h => exact congrArg Option.toList (holder_failed fault w)
  | registerFailed fault h => exact congrArg Option.toList (holder_failed fault w)
  | noGrantPinned h hwork => exact congrArg Option.toList (holder_failed none w)
  | panicked hguarded hruns => exact congrArg Option.toList (holder_failed _ w)
  | proofRefusedPinned invalid h hwork => exact congrArg Option.toList (holder_failed _ _)
  | proofFailed fault h hwork hcache => exact congrArg Option.toList (holder_failed fault _)
  | injectFailed fault h hcache => exact congrArg Option.toList (holder_failed fault _)
  | refused h => exact congrArg Option.toList (holder_cancelled w)
  | superseded h => exact congrArg Option.toList (holder_cancelled w)
  | dismissed h hloud hcancel => exact congrArg Option.toList (holder_cancelled w)
  | proved injected h hwork hcache =>
    unfold Worker.holder
    rw [hwork]
    rfl
  | injected injected h hcache =>
    have hdoes := hact _ _ h
    unfold Worker.holder
    cases hwork : w.work with
    | signIn trigger native grant pin => rfl
    | createGrant native target => rw [hwork] at hdoes; cases hdoes
    | cloudSignOut => rw [hwork] at hdoes; cases hdoes
  | registered grant h =>
    have hdoes := hact _ _ h
    unfold Worker.holder
    cases hwork : w.work with
    | signIn trigger native grant pin => rw [hwork] at hdoes; cases hdoes
    | createGrant native target => rfl
    | cloudSignOut => rw [hwork] at hdoes; cases hdoes
  | loggedOut asked h =>
    have hdoes := hact _ _ h
    unfold Worker.holder
    cases hwork : w.work with
    | signIn trigger native grant pin => rw [hwork] at hdoes; cases hdoes
    | createGrant native target => rw [hwork] at hdoes; cases hdoes
    | cloudSignOut => rfl
  | _ => exact List.append_nil _

/-- A worker goes on with what its work has to do. -/
theorem fit_moves {w w' : Worker} {ev : Option Event} (hfit : w.fit = true)
    (h : w.Moves cancel refreshToken cache (some w') ev cache') : w'.fit = true := by
  cases h with
  | fetched document h => rfl
  | published h => rfl
  | discovered h hon =>
    change w.work.does w.firstErrand = true
    unfold Worker.firstErrand
    cases w.work with
    | signIn trigger native grant pin => rfl
    | createGrant native target => rfl
    | cloudSignOut => rfl
  | confirmed h =>
    unfold Worker.fit at hfit
    rw [h] at hfit
    exact hfit
  | noGrant h hwork =>
    change w.work.does .acquireToken = true
    rw [hwork]
    rfl
  | proofRefused invalid h hwork =>
    change w.work.does .acquireToken = true
    rw [hwork]
    rfl
  | acquired h heffects =>
    change w.work.does w.tokenErrand = true
    unfold Worker.fit at hfit
    rw [h] at hfit
    unfold Worker.tokenErrand
    cases hwork : w.work with
    | signIn trigger native grant pin => rfl
    | createGrant native target => rfl
    | cloudSignOut => rw [hwork] at hfit; cases hfit

/-- The same of a thread. -/
theorem holder_threadMoves {t : Thread} {t' : Option Thread} {ev : Option Event}
    {given : Option (Option String × Grant)} (hfit : t.fit = true)
    (h : t.Moves cancel refreshToken cache t' ev cache' given) :
    (t'.bind Thread.holder).toList ++ (ev.bind Event.holder).toList = t.holder.toList ∧
      ∀ u, t' = some u → u.fit = true := by
  have hnone : ∀ u : Thread, none = some u → u.fit = true := by
    intro u hu
    cases hu
  cases h with
  | worker h =>
    rename_i w w'
    refine ⟨?_, ?_⟩
    · have hholder := holder_moves hfit h
      cases w' with
      | none => exact hholder
      | some w' => exact hholder
    · intro u hu
      cases w' with
      | none => cases hu
      | some w' =>
        cases hu
        exact fit_moves hfit h
  | elevating action recheck =>
    refine ⟨rfl, ?_⟩
    intro u hu
    cases hu
    rfl
  | lookedUp generation url => exact ⟨rfl, hnone⟩
  | probed stamp snapshot => exact ⟨rfl, hnone⟩
  | probeFailed stamp => exact ⟨rfl, hnone⟩
  | elevated action recheck outcome => exact ⟨rfl, hnone⟩
  | gaveUp generation broker grant saved report revoked => exact ⟨rfl, hnone⟩
  | compensated stamp broker grant => exact ⟨rfl, hnone⟩

/-- An answer leaves what a worker is about. -/
theorem fit_told (stamp : DiscoveryStamp) (ok : Bool) (t : Thread) :
    (t.told stamp ok).fit = t.fit := by
  cases t with
  | worker w =>
    obtain ⟨work, held, effects, leg⟩ := w
    unfold Thread.told
    dsimp only
    split
    · cases leg with
      | publish document answer =>
        cases answer with
        | none => rfl
        | some told => rfl
      | ask document errand answer =>
        cases answer with
        | none => rfl
        | some told => rfl
      | fetch => rfl
      | discoverOidc document => rfl
      | act document errand => rfl
    · rfl
  | probe p => rfl
  | elevated action recheck => rfl
  | giveUp generation broker grant saved report => rfl
  | compensate stamp broker grant => rfl

/-- A piece starts no worker that is about something else. -/
theorem fit_piece {x y : Option Holder × Client} (h : ∀ t ∈ x.2.threads, t.fit = true)
    (hpiece : Piece l x y) : ∀ t ∈ y.2.threads, t.fit = true := by
  have happended : ∀ (threads : List Thread) (u : Thread), (∀ t ∈ threads, t.fit = true) →
      u.fit = true → ∀ t ∈ threads ++ [u], t.fit = true := by
    intro threads u hthreads hu t ht
    rcases List.mem_append.mp ht with ht | ht
    · exact hthreads t ht
    · rw [List.mem_singleton.mp ht]
      exact hu
  cases hpiece with
  | quiet hquiet =>
    rw [hquiet.threads]
    exact h
  | answered stamp ok =>
    intro t ht
    obtain ⟨u, hu, hsame⟩ := List.mem_map.mp ht
    rw [← hsame, fit_told]
    exact h u hu
  | spawned ht hfit => exact happended _ _ h hfit
  | took ht hfit hbusy htook =>
    rename_i c d u taker
    have hthreads : d.threads = c.threads ++ [u] := congrArg Shared.threads htook.shared
    change ∀ t ∈ d.threads, t.fit = true
    rw [hthreads]
    exact happended _ _ h hfit
  | gave hl hgave =>
    rename_i c d giver
    have hthreads : d.threads = c.threads := congrArg Shared.threads hgave.shared
    change ∀ t ∈ d.threads, t.fit = true
    rw [hthreads]
    exact h
  | ignored hother => exact h
  | handed url grant => exact happended _ _ h rfl
  | landed hl hsteady hpublished =>
    rw [hsteady.threads]
    exact h
  | published hl hsteady hpublished hexpectations hoff =>
    rw [hsteady.threads]
    exact h
  | cleared hl hsteady hpublished hexpectations hoff =>
    rw [hsteady.threads]
    exact h

/-- At most one operation is outstanding, and it holds the slot; every worker is about what
its work has to do. -/
structure Orderly (c : Client) : Prop where
  slotted : ∃ holder, Slotted none c holder
  fit : ∀ t ∈ c.threads, t.fit = true

/-- A turn that is made of pieces is orderly. -/
theorem Orderly.pieces {i : Option Holder} (hslotted : ∃ holder, Slotted i c holder)
    (hfit : ∀ t ∈ c.threads, t.fit = true) (hpieces : Pieces l (i, c) (none, d)) :
    Orderly d where
  slotted := by
    have hkept : ∃ holder, Slotted ((none, d) : Option Holder × Client).1
        ((none, d) : Option Holder × Client).2 holder :=
      @Pieces.keeps l (fun x => ∃ holder, Slotted x.1 x.2 holder)
        (fun x y h hpiece => slotted_piece h hpiece) _ _ hpieces hslotted
    exact hkept
  fit := by
    have hkept : ∀ t ∈ ((none, d) : Option Holder × Client).2.threads, t.fit = true :=
      @Pieces.keeps l (fun x => ∀ t ∈ x.2.threads, t.fit = true)
        (fun x y h hpiece => fit_piece h hpiece) _ _ hpieces hfit
    exact hkept

/-- An event that is taken from the queue is in hand. -/
theorem Slotted.take {before after : List Event} {ev : Event} (h : Slotted none c holder)
    (hev : c.events = before ++ ev :: after) :
    Slotted ev.holder { c with events := before ++ after } holder where
  outstanding := by
    have hone : [ev].filterMap Event.holder = ev.holder.toList := by
      cases hholder : ev.holder with
      | none => simp [hholder]
      | some holder => simp [hholder]
    have hholders : c.holders = c.threads.filterMap Thread.holder ++
        (before.filterMap Event.holder ++ (ev.holder.toList ++ after.filterMap Event.holder)) := by
      unfold Client.holders
      rw [hev, ← List.singleton_append, List.filterMap_append, List.filterMap_append, hone]
    refine List.Perm.trans ?_ h.outstanding
    unfold Client.holders
    dsimp only
    rw [List.filterMap_append]
    change List.Perm _ c.holders
    rw [hholders]
    refine (List.perm_append_comm_assoc _ _ _).trans (List.Perm.append_left _ ?_)
    exact List.perm_append_comm_assoc _ _ _
  busy := h.busy
  operation := h.operation
  passed := h.passed
  stamps := h.stamps

/-- What a thread holds goes on to its event. -/
theorem holders_thread {before after : List Thread} {t : Thread} {t' : Option Thread}
    {ev : Option Event} {given : Option (Option String × Grant)}
    (ht : c.threads = before ++ t :: after)
    (hsame : (t'.bind Thread.holder).toList ++ (ev.bind Event.holder).toList = t.holder.toList) :
    ({ c with
      threads := before ++ t'.toList ++ after
      events := c.events ++ ev.toList
      cache := cache
      revocations := given.toList ++ c.revocations } : Client).holders.Perm c.holders := by
  have hthread : ∀ u : Option Thread,
      u.toList.filterMap Thread.holder = (u.bind Thread.holder).toList := by
    intro u
    cases u with
    | none => rfl
    | some u => cases hholder : u.holder <;> simp [hholder]
  have hevent : ev.toList.filterMap Event.holder = (ev.bind Event.holder).toList := by
    cases ev with
    | none => rfl
    | some ev => cases hholder : ev.holder <;> simp [hholder]
  unfold Client.holders
  dsimp only
  rw [ht]
  simp only [List.filterMap_append, hevent, hthread]
  rw [← List.singleton_append, List.filterMap_append,
    show [t].filterMap Thread.holder = t.holder.toList from hthread (some t), ← hsame]
  simp only [List.append_assoc]
  refine List.Perm.append_left _ (List.Perm.append_left _ ?_)
  rw [← List.append_assoc]
  exact List.perm_append_comm

/-- Every step keeps the order. -/
theorem orderly_step (h : Orderly c) (hstep : Step c l d) : Orderly d := by
  obtain ⟨holder, hslotted⟩ := h.slotted
  cases hstep with
  | command os hclock cmd =>
    exact Orderly.pieces h.slotted h.fit ((pieces_command cmd).quiet quiet_settle)
  | deliver os hclock hev =>
    rename_i before after ev
    exact Orderly.pieces (c := { c with events := before ++ after }) ⟨holder, hslotted.take hev⟩
      h.fit ((pieces_applyEvent ev).quiet quiet_settle)
  | thread ht hmoves =>
    rename_i before after t t' ev cache given
    have hmem : t ∈ c.threads := by
      rw [ht]
      exact List.mem_append_right _ List.mem_cons_self
    obtain ⟨hsame, hfit⟩ := holder_threadMoves (h.fit t hmem) hmoves
    refine ⟨⟨holder, ?_, hslotted.busy, hslotted.operation, hslotted.passed,
      hslotted.stamps⟩, ?_⟩
    · exact (holders_thread ht hsame).trans hslotted.outstanding
    · intro u hu
      have hold : ∀ u, u ∈ before ∨ u ∈ after → u.fit = true := by
        intro u hu
        refine h.fit u ?_
        rw [ht]
        rcases hu with hu | hu
        · exact List.mem_append_left _ hu
        · exact List.mem_append_right _ (List.mem_cons_of_mem _ hu)
      rcases List.mem_append.mp hu with hu | hu
      · rcases List.mem_append.mp hu with hu | hu
        · exact hold u (Or.inl hu)
        · exact hfit u (Option.mem_toList.mp hu)
      · exact hold u (Or.inr hu)
  | rewrite disk =>
    have hquiet : Quiet c (c.withAgent fun a =>
        { a with settings := { a.settings with disk := disk } }) := Quiet.of_core rfl rfl
    exact Orderly.pieces h.slotted h.fit (hquiet.pieces (l := .rewrite))

/-- In every state that is reached the slot is held by the one outstanding operation, if
there is one. -/
theorem Reachable.orderly (h : Reachable c) : Orderly c := by
  refine h.keeps ?_ fun c l d h hstep => orderly_step h hstep
  intro os settings
  obtain ⟨a, hoperation, hpieces⟩ := @pieces_init os .rewrite settings
  refine Orderly.pieces ⟨none, ?_⟩ ?_ hpieces
  · refine ⟨List.Perm.refl _, rfl, ?_, .start, ?_⟩
    · change a.busyOperation.map BusyOperation.stamp = none
      rw [hoperation]
      rfl
    · intro stamp hmem
      cases hmem
  · intro t ht
    cases ht

end Slot

section Given

variable {i j : Option Holder} {c d : Client} {l : Label}

/-- What leaves the history of the slot leaves who gave it back. -/
theorem given_slot (h : d.slot = c.slot) : d.given = c.given := by
  unfold Client.given
  rw [h]

/-- Within a step only the operation whose event is applied gives the slot back, and at
most once. -/
theorem given_pieces (h : Pieces l (l.inHand, c) (j, d)) :
    d.given = c.given ∨ ∃ holder, l.inHand = some holder ∧ d.given = holder :: c.given := by
  have hkept : (j = l.inHand ∧ d.given = c.given) ∨ (j = none ∧ (d.given = c.given ∨
      ∃ holder, l.inHand = some holder ∧ d.given = holder :: c.given)) := by
    refine @Pieces.keeps l (fun x => (x.1 = l.inHand ∧ x.2.given = c.given) ∨
      (x.1 = none ∧ (x.2.given = c.given ∨
        ∃ holder, l.inHand = some holder ∧ x.2.given = holder :: c.given))) ?_ _ _ h
      (Or.inl ⟨rfl, rfl⟩)
    intro x y hx hpiece
    have hsame : y.1 = x.1 → y.2.given = x.2.given → (y.1 = l.inHand ∧ y.2.given = c.given) ∨
        (y.1 = none ∧ (y.2.given = c.given ∨
          ∃ holder, l.inHand = some holder ∧ y.2.given = holder :: c.given)) := by
      intro hhand hgiven
      rw [hhand, hgiven]
      exact hx
    cases hpiece with
    | quiet hquiet => exact hsame rfl (given_slot hquiet.slot)
    | answered stamp ok => exact hsame rfl rfl
    | spawned ht hfit => exact hsame rfl rfl
    | took ht hfit hbusy htook =>
      rename_i c d t taker
      have hslot : d.slot = .took taker :: c.slot := congrArg Shared.slot htook.shared
      refine hsame rfl ?_
      change d.slot.filterMap SlotEntry.given = c.slot.filterMap SlotEntry.given
      rw [hslot]
      rfl
    | gave hl hgave =>
      rename_i b e giver
      have hslot : e.slot = .gave giver :: b.slot := congrArg Shared.slot hgave.shared
      have hgiven : e.given = giver :: b.given := by
        unfold Client.given
        rw [hslot]
        rfl
      rcases hx with ⟨_, hbefore⟩ | ⟨hnone, _⟩
      · have hbefore : b.given = c.given := hbefore
        rw [hbefore] at hgiven
        exact Or.inr ⟨rfl, Or.inr ⟨giver, hl, hgiven⟩⟩
      · cases hnone
    | ignored hother =>
      rcases hx with ⟨_, hbefore⟩ | ⟨hnone, _⟩
      · exact Or.inr ⟨rfl, Or.inl hbefore⟩
      · cases hnone
    | handed url grant =>
      rcases hx with ⟨_, hbefore⟩ | ⟨hnone, _⟩
      · exact Or.inr ⟨rfl, Or.inl hbefore⟩
      · cases hnone
    | landed hl hsteady hpublished => exact hsame rfl (given_slot hsteady.slot)
    | published hl hsteady hpublished hexpectations hoff =>
      exact hsame rfl (given_slot hsteady.slot)
    | cleared hl hsteady hpublished hexpectations hoff =>
      exact hsame rfl (given_slot hsteady.slot)
  rcases hkept with ⟨_, hgiven⟩ | ⟨_, hgiven⟩
  · exact Or.inl hgiven
  · exact hgiven

/-- The slot is given back only when an event is applied, by the operation of that event. -/
theorem given_step (hstep : Step c l d) :
    d.given = c.given ∨
      ∃ ev holder, l = .deliver ev ∧ ev.holder = some holder ∧ d.given = holder :: c.given := by
  cases hstep with
  | command os hclock cmd =>
    rcases given_pieces ((pieces_command cmd).quiet (@quiet_settle os _)) with
      hsame | ⟨holder, hnone, _⟩
    · exact Or.inl hsame
    · cases hnone
  | deliver os hclock hev =>
    rename_i before after ev
    rcases @given_pieces none { c with events := before ++ after } _ (.deliver ev)
      ((pieces_applyEvent ev).quiet (@quiet_settle os _)) with hsame | ⟨holder, hholder, hgiven⟩
    · exact Or.inl hsame
    · exact Or.inr ⟨ev, holder, rfl, hholder, hgiven⟩
  | thread ht hmoves => exact Or.inl rfl
  | rewrite disk => exact Or.inl rfl

end Given

section Publishing

variable {i j : Option Holder} {c d : Client} {l : Label}

/-- Without a document nothing is published. What was published is cleared by the settings
sheet only. -/
theorem published_pieces (h : Pieces l (i, c) (j, d))
    (hother : ∀ stamp snapshot accepted, l ≠ .deliver (.discovered stamp snapshot accepted)) :
    d.agent.published = c.agent.published ∨
      ∃ change, l = .command (.applySettings change) ∧ d.agent.published = .nothing := by
  refine @Pieces.keeps l (fun x => x.2.agent.published = c.agent.published ∨
    ∃ change, l = .command (.applySettings change) ∧ x.2.agent.published = .nothing) ?_ _ _ h
    (Or.inl rfl)
  intro x y hx hpiece
  have hsame : y.2.agent.published = x.2.agent.published →
      y.2.agent.published = c.agent.published ∨
        ∃ change, l = .command (.applySettings change) ∧ y.2.agent.published = .nothing := by
    intro hpublished
    rw [hpublished]
    exact hx
  cases hpiece with
  | quiet hquiet => exact hsame hquiet.published
  | answered stamp ok => exact hsame rfl
  | spawned ht hfit => exact hsame rfl
  | took ht hfit hbusy htook => exact hsame htook.published
  | gave hl hgave => exact hsame hgave.published
  | ignored hstamp => exact hsame rfl
  | handed url grant => exact hsame rfl
  | landed hl hsteady hpublished => exact hsame hpublished
  | published hl hsteady hpublished hexpectations hoff => exact absurd hl (hother _ _ _)
  | cleared hl hsteady hpublished hexpectations hoff => exact Or.inr ⟨_, hl, hpublished⟩

/-- A document is published when its request is current, and only then. -/
theorem published_discovered {os : Os} {stamp : DiscoveryStamp} {snapshot : BrokerSnapshot}
    {accepted : Bool} :
    (c.discovered os stamp snapshot accepted).agent.published = c.agent.published ∨
      (c.agent.discoveryIsCurrent stamp = true ∧
        (c.discovered os stamp snapshot accepted).agent.published = snapshot.published) := by
  obtain ⟨a, back, hcore, hcurrent, hresult⟩ := @discovered_cases os c stamp snapshot accepted
  have hagent : (c.discovered os stamp snapshot accepted).agent =
      a.received os stamp snapshot back := by
    rcases hresult with hresult | ⟨ok, hresult⟩
    · rw [hresult]
      rfl
    · rw [hresult]
      rfl
  rw [hagent, ← hcurrent]
  rcases @received_cases os a stamp snapshot back with ⟨_, hsame⟩ | ⟨hnewest, hchanged, _⟩
  · left
    rw [hsame]
    exact congrArg (fun x => x.ledger.published) hcore
  · exact Or.inr ⟨hnewest, congrArg Ledger.published hchanged⟩

/-- What the broker published is replaced by a document whose request is the newest, at the
effective broker URL, or cleared when the settings sheet names another broker. -/
theorem published_step (hstep : Step c l d) :
    d.agent.published = c.agent.published ∨
      (∃ stamp snapshot accepted, l = .deliver (.discovered stamp snapshot accepted) ∧
        c.agent.discoveryIsCurrent stamp = true ∧ d.agent.published = snapshot.published) ∨
      ∃ change, l = .command (.applySettings change) ∧ d.agent.published = .nothing := by
  cases hstep with
  | command os hclock cmd =>
    rcases published_pieces ((pieces_command cmd).quiet (@quiet_settle os _)) nofun with
      hsame | hcleared
    · exact Or.inl hsame
    · exact Or.inr (Or.inr hcleared)
  | deliver os hclock hev =>
    rename_i before after ev
    by_cases hdocument : ∃ stamp snapshot accepted, ev = .discovered stamp snapshot accepted
    · obtain ⟨stamp, snapshot, accepted, hdocument⟩ := hdocument
      subst hdocument
      rcases @published_discovered { c with events := before ++ after } os stamp snapshot
        accepted with hsame | ⟨hcurrent, hpublished⟩
      · exact Or.inl hsame
      · exact Or.inr (Or.inl ⟨stamp, snapshot, accepted, rfl, hcurrent, hpublished⟩)
    · have hother : ∀ stamp snapshot accepted,
          Label.deliver ev ≠ .deliver (.discovered stamp snapshot accepted) := by
        intro stamp snapshot accepted hl
        cases hl
        exact hdocument ⟨stamp, snapshot, accepted, rfl⟩
      have hpieces := Pieces.quiet (@pieces_applyEvent os
        { c with events := before ++ after } ev) (@quiet_settle os _)
      rcases published_pieces hpieces hother with hsame | ⟨change, hl, _⟩
      · exact Or.inl hsame
      · cases hl
  | thread ht hmoves => exact Or.inl rfl
  | rewrite disk => exact Or.inl rfl

end Publishing

section Stale

/-- The realm that a worker put a ticket into, or tried to. -/
def Event.injectionRealm : Event → Option String
  | .signedIn _ _ realm _ _ => some realm
  | .signInFailed _ effects _ _ => effects.injectionRealm
  | _ => none

/-- Nothing of the agent changes but which work runs. A sign-in that showed is over. -/
def Untouched (a b : Agent) : Prop :=
  ∃ operation inFlight phase cloudSignOut,
    b = { a with
      busyOperation := operation
      inFlight := inFlight
      phase := phase
      cloudSignOut := cloudSignOut } ∧
    (phase = a.phase ∨ a.phase = .signingIn)

/-- A result is refused: nothing of it is applied, the tickets of its realm are gone when
the cache lets them be purged, and a grant goes to a thread that gives it back, which holds
the slot until that is done. -/
structure Rejected (os : Os) (ev : Event) (c d : Client) : Prop where
  agent : Untouched c.agent d.agent
  refreshToken : d.refreshToken = c.refreshToken
  purged : ∀ realm, ev.injectionRealm = some realm → realm ≠ "" → os.purged realm = true →
    ∀ t ∈ d.cache, t.realm ≠ realm
  compensated : ∀ stamp grant url effects, ev = .grantCreated stamp grant url effects →
    ∀ e, Run (fun _ _ _ => True) d e →
      (some url, grant) ∈ e.revocations ∨
        (.compensate stamp url grant ∈ e.threads ∧ e.busy = true)

variable {os : Os} {i j : Option Holder} {c d : Client} {l : Label} {stamp : DiscoveryStamp}

theorem Untouched.refl (a : Agent) : Untouched a a :=
  ⟨a.busyOperation, a.inFlight, a.phase, a.cloudSignOut, rfl, Or.inl rfl⟩

/-- An operation that is over touches nothing else. -/
theorem untouched_finishBusy :
    Untouched c.agent (c.finishBusy os stamp true).agent ∧
      (c.finishBusy os stamp true).refreshToken = c.refreshToken ∧
      (c.finishBusy os stamp true).cache = c.cache := by
  unfold Client.finishBusy
  split
  · split
    · refine ⟨?_, rfl, rfl⟩
      rename_i operation _ _
      change Untouched c.agent (Agent.released os.first
        ({ c.agent with busyOperation := none }.ended operation.action))
      unfold Agent.released
      split
      · rename_i hphase
        exact ⟨none, _, _, c.agent.cloudSignOut, rfl, Or.inr hphase⟩
      · exact ⟨none, _, c.agent.phase, c.agent.cloudSignOut, rfl, Or.inl rfl⟩
    · exact ⟨Untouched.refl _, rfl, rfl⟩
  · exact ⟨Untouched.refl _, rfl, rfl⟩

/-- A purge takes the tickets of its realm and touches nothing else. -/
theorem purgeRealm_spec (realm : String) :
    (c.purgeRealm os realm).refreshToken = c.refreshToken ∧
      (realm ≠ "" → os.purged realm = true →
        ∀ t ∈ (c.purgeRealm os realm).cache, t.realm ≠ realm) := by
  unfold Client.purgeRealm
  split
  · refine ⟨rfl, fun _ _ t ht => ?_⟩
    have hkept := (List.mem_filter.mp ht).2
    exact of_decide_eq_true hkept
  · rename_i hrefused
    exact ⟨rfl, fun hrealm hpurged => absurd ⟨hrealm, hpurged⟩ hrefused⟩

/-- A thread that waits for no answer stays until it takes a step of its own. -/
theorem stays_piece {t : Thread} (htold : ∀ stamp ok, t.told stamp ok = t)
    {x y : Option Holder × Client} (h : t ∈ x.2.threads) (hpiece : Piece l x y) :
    t ∈ y.2.threads := by
  cases hpiece with
  | quiet hquiet =>
    rw [hquiet.threads]
    exact h
  | answered stamp ok => exact List.mem_map.mpr ⟨t, h, htold stamp ok⟩
  | spawned ht hfit => exact List.mem_append_left _ h
  | took ht hfit hbusy htook =>
    rename_i c d u taker
    have hthreads : d.threads = c.threads ++ [u] := congrArg Shared.threads htook.shared
    change t ∈ d.threads
    rw [hthreads]
    exact List.mem_append_left _ h
  | gave hl hgave =>
    rename_i c d giver
    have hthreads : d.threads = c.threads := congrArg Shared.threads hgave.shared
    change t ∈ d.threads
    rw [hthreads]
    exact h
  | ignored hstamp => exact h
  | handed url grant => exact List.mem_append_left _ h
  | landed hl hsteady hpublished =>
    rw [hsteady.threads]
    exact h
  | published hl hsteady hpublished hexpectations hoff =>
    rw [hsteady.threads]
    exact h
  | cleared hl hsteady hpublished hexpectations hoff =>
    rw [hsteady.threads]
    exact h

/-- No piece forgets a grant that was given back. -/
theorem revocations_piece {x y : Option Holder × Client} (hpiece : Piece l x y) :
    y.2.revocations = x.2.revocations := by
  cases hpiece with
  | quiet hquiet => exact hquiet.revocations
  | answered stamp ok => rfl
  | spawned ht hfit => rfl
  | took ht hfit hbusy htook => exact congrArg Shared.revocations htook.shared
  | gave hl hgave => exact congrArg Shared.revocations hgave.shared
  | ignored hstamp => rfl
  | handed url grant => rfl
  | landed hl hsteady hpublished => exact hsteady.revocations
  | published hl hsteady hpublished hexpectations hoff => exact hsteady.revocations
  | cleared hl hsteady hpublished hexpectations hoff => exact hsteady.revocations

/-- The grant is being given back, or that is done. -/
def Returning (stamp : DiscoveryStamp) (url : String) (grant : Grant) (c : Client) : Prop :=
  (some url, grant) ∈ c.revocations ∨ Thread.compensate stamp url grant ∈ c.threads

/-- Pieces keep a grant returning. -/
theorem returning_pieces {url : String} {grant : Grant} (h : Returning stamp url grant c)
    (hpieces : Pieces l (i, c) (j, d)) : Returning stamp url grant d := by
  refine @Pieces.keeps l (fun x => Returning stamp url grant x.2) ?_ _ _ hpieces h
  intro x y hx hpiece
  rcases hx with hrevoked | hthread
  · left
    rw [revocations_piece hpiece]
    exact hrevoked
  · exact Or.inr (stays_piece (fun _ _ => rfl) hthread hpiece)

/-- Every step keeps a grant returning. -/
theorem returning_step {url : String} {grant : Grant} (h : Returning stamp url grant c)
    (hstep : Step c l d) : Returning stamp url grant d := by
  cases hstep with
  | command os hclock cmd =>
    exact returning_pieces h ((pieces_command cmd).quiet (@quiet_settle os _))
  | deliver os hclock hev =>
    rename_i before after ev
    exact @returning_pieces _ _ { c with events := before ++ after } _ (.deliver ev) _ _ _ h
      ((pieces_applyEvent ev).quiet (@quiet_settle os _))
  | thread ht hmoves =>
    rename_i before after t t' ev cache given
    rcases h with hrevoked | hthread
    · exact Or.inl (List.mem_append_right _ hrevoked)
    · rw [ht] at hthread
      rcases List.mem_append.mp hthread with hbefore | hrest
      · exact Or.inr (List.mem_append_left _ (List.mem_append_left _ hbefore))
      · rcases List.mem_cons.mp hrest with hself | hafter
        · rw [← hself] at hmoves
          cases hmoves with
          | compensated => exact Or.inl List.mem_cons_self
        · exact Or.inr (List.mem_append_right _ hafter)
  | rewrite disk => exact h

/-- A result that is not current is refused. -/
theorem applyEvent_stale {ev : Event} (hstamp : ev.terminalStamp = some stamp)
    (hstale : c.agent.discoveryIsCurrent stamp = false) :
    c.applyEvent os ev = c.rejectStaleTerminal os ev := by
  have hrefused : (if c.agent.discoveryIsCurrent stamp then
      (c.withAgent fun a => { a with discoveryEnded := true }).sharedEvent os ev
      else c.rejectStaleTerminal os ev) = c.rejectStaleTerminal os ev := by
    rw [hstale]
    rfl
  cases ev with
  | signedIn own injected realm effects viaGrant => cases hstamp; exact hrefused
  | signInFailed own effects fault trigger => cases hstamp; exact hrefused
  | cancelled own effects => cases hstamp; exact hrefused
  | grantCreated own grant url effects => cases hstamp; exact hrefused
  | grantFailed own effects fault => cases hstamp; exact hrefused
  | cloudSignedOut own asked => cases hstamp; exact hrefused
  | elevatedFinished action outcome recheck => cases hstamp
  | brokerLookup generation url => cases hstamp
  | discovered own snapshot accepted => cases hstamp
  | discoveryFailed own => cases hstamp
  | current own => cases hstamp
  | staleGrantCompensated own => cases hstamp
  | grantGivenUp generation broker revoked saved report => cases hstamp
  | elevationGranted action => cases hstamp

/-- What a refusal leaves of the agent, and of the cache. -/
theorem rejectStaleTerminal_spec (ev : Event) :
    Untouched c.agent (c.rejectStaleTerminal os ev).agent ∧
      (c.rejectStaleTerminal os ev).refreshToken = c.refreshToken ∧
      (∀ realm, ev.injectionRealm = some realm → realm ≠ "" → os.purged realm = true →
        ∀ t ∈ (c.rejectStaleTerminal os ev).cache, t.realm ≠ realm) := by
  have hnone : ∀ d : Client, ∀ realm, (none : Option String) = some realm → realm ≠ "" →
      os.purged realm = true → ∀ t ∈ d.cache, t.realm ≠ realm := by
    intro d realm hrealm
    cases hrealm
  have hpurging : ∀ (own : DiscoveryStamp) (realm : String),
      Untouched c.agent ((c.purgeRealm os realm).finishBusy os own true).agent ∧
        ((c.purgeRealm os realm).finishBusy os own true).refreshToken = c.refreshToken ∧
        (realm ≠ "" → os.purged realm = true →
          ∀ t ∈ ((c.purgeRealm os realm).finishBusy os own true).cache, t.realm ≠ realm) := by
    intro own realm
    obtain ⟨hagent, htoken, hcache⟩ := @untouched_finishBusy os (c.purgeRealm os realm) own
    obtain ⟨hkept, hgone⟩ := @purgeRealm_spec os c realm
    rw [agent_purgeRealm] at hagent
    refine ⟨hagent, htoken.trans hkept, ?_⟩
    rw [hcache]
    exact hgone
  have hfinished : ∀ own : DiscoveryStamp,
      Untouched c.agent (c.finishBusy os own true).agent ∧
        (c.finishBusy os own true).refreshToken = c.refreshToken := by
    intro own
    obtain ⟨hagent, htoken, _⟩ := @untouched_finishBusy os c own
    exact ⟨hagent, htoken⟩
  cases ev with
  | signedIn own injected realm effects viaGrant =>
    obtain ⟨hagent, htoken, hgone⟩ := hpurging own realm
    refine ⟨hagent, htoken, fun other hother => ?_⟩
    cases hother
    exact hgone
  | signInFailed own effects fault trigger =>
    change Untouched c.agent (Client.finishBusy os own true _).agent ∧
      (Client.finishBusy os own true _).refreshToken = c.refreshToken ∧
      (∀ realm, effects.injectionRealm = some realm → realm ≠ "" → os.purged realm = true →
        ∀ t ∈ (Client.finishBusy os own true _).cache, t.realm ≠ realm)
    cases effects.injectionRealm with
    | none => exact ⟨(hfinished own).1, (hfinished own).2, hnone _⟩
    | some realm =>
      obtain ⟨hagent, htoken, hgone⟩ := hpurging own realm
      refine ⟨hagent, htoken, fun other hother => ?_⟩
      cases hother
      exact hgone
  | cancelled own effects => exact ⟨(hfinished own).1, (hfinished own).2, hnone _⟩
  | grantFailed own effects fault => exact ⟨(hfinished own).1, (hfinished own).2, hnone _⟩
  | cloudSignedOut own asked =>
    refine ⟨?_, rfl, hnone _⟩
    change Untouched c.agent (c.agent.finishCloudSignOut own)
    unfold Agent.finishCloudSignOut
    split
    · exact ⟨c.agent.busyOperation, _, c.agent.phase, none, rfl, Or.inl rfl⟩
    · exact Untouched.refl _
  | _ => exact ⟨Untouched.refl _, rfl, hnone _⟩

/-- A thread that holds the slot keeps it busy. -/
theorem Orderly.busy_of_thread (h : Orderly c) {t : Thread} {holder : Holder}
    (ht : t ∈ c.threads) (hholder : t.holder = some holder) : c.busy = true := by
  obtain ⟨held, hslotted⟩ := h.slotted
  have hmem : holder ∈ c.holders :=
    List.mem_append_left _ (List.mem_filterMap.mpr ⟨t, ht, hholder⟩)
  have hheld : holder ∈ held.toList := hslotted.outstanding.mem_iff.mp hmem
  rw [hslotted.busy, Option.mem_toList.mp hheld]
  rfl

/-- A result that is not current when it is applied is undone. -/
theorem rejected_applyEvent {before after : List Event} {ev : Event} (h : Reachable c)
    (hclock : c.clock ≤ os.first) (hev : c.events = before ++ ev :: after)
    (hstamp : ev.terminalStamp = some stamp)
    (hstale : c.agent.discoveryIsCurrent stamp = false) :
    Rejected os ev c (({ c with events := before ++ after }.applyEvent os ev).settle os) := by
  have hrefused : ({ c with events := before ++ after } : Client).applyEvent os ev =
      ({ c with events := before ++ after } : Client).rejectStaleTerminal os ev :=
    applyEvent_stale hstamp hstale
  obtain ⟨hagent, htoken, hpurged⟩ :=
    @rejectStaleTerminal_spec os { c with events := before ++ after } ev
  have hreached : Reachable (({ c with events := before ++ after }.applyEvent os ev).settle os) :=
    h.step (.deliver os hclock hev)
  rw [hrefused] at hreached ⊢
  refine ⟨hagent, htoken, hpurged, ?_⟩
  intro own grant url effects hcreated e hrun
  subst hcreated
  have hstarted : Returning own url grant (Client.settle os
      (({ c with events := before ++ after } : Client).rejectStaleTerminal os
        (.grantCreated own grant url effects))) :=
    Or.inr (List.mem_append_right _ List.mem_cons_self)
  rcases hrun.keeps (fun _ _ _ hreturning hstep _ => returning_step hreturning hstep)
    hstarted with hrevoked | hthread
  · exact Or.inl hrevoked
  · exact Or.inr ⟨hthread, (hrun.reachable hreached).orderly.busy_of_thread hthread rfl⟩

end Stale

/-- In every state that is reached at most one operation is outstanding, and it holds the
slot, which is free otherwise. A step gives the slot back only when it applies the last event
of the holder, and changes what the broker published only by a document whose request is the
newest, at the effective broker URL, or by clearing it for another broker. A result that is
not current when it is applied is undone, as far as the system lets it. -/
theorem slot_and_stamps {c : Client} (h : Reachable c) :
    (∃ holder, Slotted none c holder) ∧
    (∀ l d, Step c l d →
      (d.given = c.given ∨
        ∃ ev holder, l = .deliver ev ∧ ev.holder = some holder ∧ d.given = holder :: c.given) ∧
      (d.agent.published = c.agent.published ∨
        (∃ stamp snapshot accepted, l = .deliver (.discovered stamp snapshot accepted) ∧
          c.agent.discoveryIsCurrent stamp = true ∧ d.agent.published = snapshot.published) ∨
        ∃ change, l = .command (.applySettings change) ∧ d.agent.published = .nothing)) ∧
    (∀ (os : Os) (before after : List Event) (ev : Event) (stamp : DiscoveryStamp),
      c.clock ≤ os.first → c.events = before ++ ev :: after → ev.terminalStamp = some stamp →
      c.agent.discoveryIsCurrent stamp = false →
      Rejected os ev c (({ c with events := before ++ after }.applyEvent os ev).settle os)) := by
  refine ⟨h.orderly.slotted, ?_, ?_⟩
  · intro l d hstep
    exact ⟨given_step hstep, published_step hstep⟩
  · intro os before after ev stamp hclock hev hstamp hstale
    exact rejected_applyEvent h hclock hev hstamp hstale

section Sample

/-- The machine of the sample with a grant. -/
def grantedSettings : Settings :=
  { sampleSettings with file := { sampleSettings.file with
    grant := some ⟨"grant", "device", none, "broker", 1000⟩ } }

/-- What the sample's broker publishes. -/
def sampleSnapshot : BrokerSnapshot :=
  ⟨⟨"EXAMPLE.SITE", [], []⟩, .off, ⟨none, none⟩, none, "", ""⟩

/-- The stamp of the user's sign-in: the second request, after the probe's. -/
def sampleStamp : DiscoveryStamp := ⟨"https://broker.example", 2⟩

/-- The worker of that sign-in. -/
def sampleWorker (leg : Leg) : Thread :=
  .worker ⟨.signIn .user false grantedSettings.file.grant none, sampleStamp, .none, leg⟩

/-- The document it gets. -/
def sampleDocument : Document := ⟨sampleSnapshot, "https://broker.example"⟩

/-- The agent when its user asked for a sign-in. -/
def signingClient : Client :=
  ((Client.init (sampleOs 0 none) grantedSettings).command (sampleOs 0 none) .signIn).settle
    (sampleOs 0 none)

/-- The agent once the worker has its document. -/
def publishedClient : Client :=
  ({ signingClient with
    threads := [.probe (.config ⟨"https://broker.example", 1⟩),
      sampleWorker (.publish sampleDocument none)] }.applyEvent (sampleOs 0 none)
    (.discovered sampleStamp sampleSnapshot true)).settle (sampleOs 0 none)

/-- The agent once the worker is about to prove the grant. -/
def actingClient : Client :=
  { ({ publishedClient with
    threads := [.probe (.config ⟨"https://broker.example", 1⟩),
      sampleWorker (.ask sampleDocument .proveGrant none)] }.applyEvent (sampleOs 0 none)
    (.current sampleStamp)).settle (sampleOs 0 none) with
    threads := [.probe (.config ⟨"https://broker.example", 1⟩),
      sampleWorker (.act sampleDocument .proveGrant)] }

theorem signing_reachable : Reachable signingClient :=
  (Reachable.start _ _).step (.command _ (by decide) .signIn)

theorem signing_threads : signingClient.threads =
    [] ++ [.probe (.config ⟨"https://broker.example", 1⟩)] ++ sampleWorker .fetch :: [] := by
  decide

theorem published_reachable : Reachable publishedClient := by
  have hfetched := signing_reachable.step (Step.thread signing_threads
    (.worker (.fetched sampleDocument rfl)))
  exact hfetched.step (@Step.deliver _ (sampleOs 0 none) (by decide) [] [] _
    (by decide))

theorem published_threads : publishedClient.threads =
    [] ++ [.probe (.config ⟨"https://broker.example", 1⟩)] ++
      sampleWorker (.publish sampleDocument (some true)) :: [] := by
  decide

theorem acting_reachable : Reachable actingClient := by
  have hpublished := published_reachable.step (Step.thread published_threads
    (.worker (.published rfl)))
  have hdiscovered := hpublished.step (@Step.thread _
    [.probe (.config ⟨"https://broker.example", 1⟩)] [] _ _ _ _ _ rfl
    (.worker (.discovered rfl nofun)))
  have hasked := hdiscovered.step (@Step.deliver _ (sampleOs 0 none) (by decide) [] []
    (.current sampleStamp) (by decide))
  exact hasked.step (@Step.thread _
    [.probe (.config ⟨"https://broker.example", 1⟩)] []
    (sampleWorker (.ask sampleDocument .proveGrant (some true))) _ _ _ _ (by decide)
    (.worker (.confirmed rfl)))

/-- A system that does not let a ticket be purged. -/
def keepingOs : Os := { sampleOs 0 none with purged := fun _ => false }

/-- The sample's ticket landed, and the sign-in has not been told. -/
def landedClient : Client :=
  { actingClient with
    threads := [.probe (.config ⟨"https://broker.example", 1⟩)]
    events := [.signedIn sampleStamp ⟨"anna@EXAMPLE.SITE", 0, 1000, 0⟩ "EXAMPLE.SITE"
      ⟨none, false, none, some "EXAMPLE.SITE"⟩ (some "grant")]
    cache := [⟨"EXAMPLE.SITE", sampleStamp⟩] }

theorem landed_reachable : Reachable landedClient := by
  exact acting_reachable.step (@Step.thread _
    [.probe (.config ⟨"https://broker.example", 1⟩)] []
    (sampleWorker (.act sampleDocument .proveGrant)) none _ _ none rfl
    (.worker (.proved ⟨"anna@EXAMPLE.SITE", 0, 1000, 0⟩ rfl rfl ⟨"EXAMPLE.SITE", Or.inl rfl⟩)))

/-- Another process points the file at another broker, and the agent reads it. -/
def repointedClient : Client :=
  ((landedClient.withAgent fun a => { a with settings := { a.settings with
    disk := .holds { sampleSettings.file with
      brokerUrl := some "https://other.example" } } }).command (sampleOs 0 none)
    (.applySettings ⟨none, none, none, none⟩)).settle (sampleOs 0 none)

/-- What the broker published is also cleared without a document. And the ticket of a request
that is not current any more stays in the cache when the system does not let it be purged. -/
theorem stale_ticket_stays :
    (∃ c d, Reachable c ∧
      Step c (.command (.applySettings ⟨some "https://other.example", none, none, none⟩)) d ∧
      d.agent.published ≠ c.agent.published) ∧
    ∃ c d ev, Reachable c ∧ Step c (.deliver ev) d ∧ ev.terminalStamp = some sampleStamp ∧
      c.agent.discoveryIsCurrent sampleStamp = false ∧
      ∃ t ∈ d.cache, t.stamp = sampleStamp := by
  refine ⟨⟨Client.init (sampleOs 0 none) sampleSettings, _, .start _ _,
    .command (sampleOs 0 none) (by decide) _, by decide⟩, ?_⟩
  have hrepointed : Reachable repointedClient :=
    (landed_reachable.step (.rewrite _)).step
      (.command (sampleOs 0 none) (by decide) (.applySettings ⟨none, none, none, none⟩))
  refine ⟨repointedClient, _, _, hrepointed,
    @Step.deliver _ keepingOs (by decide) [] [] (.signedIn sampleStamp
      ⟨"anna@EXAMPLE.SITE", 0, 1000, 0⟩ "EXAMPLE.SITE" ⟨none, false, none, some "EXAMPLE.SITE"⟩
      (some "grant")) (by decide), rfl, by decide, ?_⟩
  exact ⟨⟨"EXAMPLE.SITE", sampleStamp⟩, by decide, rfl⟩

/-- The rule at the start of the sample. -/
theorem slot_and_stamps_start :
    ∃ holder, Slotted none (Client.init (sampleOs 0 none) sampleSettings) holder :=
  (slot_and_stamps (Reachable.start (sampleOs 0 none) sampleSettings)).1

end Sample

end Kerbridge.ClientAgent

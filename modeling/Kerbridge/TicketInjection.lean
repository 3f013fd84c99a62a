import Kerbridge.IssuedTicket
import Kerbridge.LinuxTickets

/-!
# One exchange, from the broker to the cache

A ticket that the broker hands out replaces the cache. Before it does, the tickets of
the realm are dropped, so an exchange that fails after that leaves none.
-/

namespace Kerbridge.Session

open UnicodeText FileSteps Krbcred LinuxTickets UnixPath

/-- What the broker hands out. -/
structure Ticket where
  principal : String
  ccache : List UInt8

/-- A ticket-granting ticket now in the cache. -/
structure Injected where
  principal : String
  start : ℤ
  end_ : ℤ
  renewTill : ℤ

/-- Why an injection failed: the broker refused, or this machine failed. -/
inductive InjectError (Refusal : Type) where
  | broker (why : Refusal)
  | machine (why : String)

/-- What the checks before the cache come to. -/
structure Exchange (Refusal : Type) where
  /-- The address of the broker is one to trust. -/
  requireHttps : Except String Unit
  /-- What the broker answers. -/
  fetchTicket : Except Refusal Ticket

/-- The realm of a ticket. -/
def Ticket.realm (ticket : Ticket) : String := afterLast '@' ticket.principal

variable {Refusal : Type}

/-- Exchanges a proof for a ticket and puts it in the cache. -/
def injectWith (m : Machine) (o : Outcomes) (ex : Exchange Refusal)
    (files : Files String UInt8) :
    Files String UInt8 × Except (InjectError Refusal) Injected :=
  match ex.requireHttps with
  | .error why => (files, .error (.machine why))
  | .ok () =>
    match ex.fetchTicket with
    | .error why => (files, .error (.broker why))
    | .ok ticket =>
      match ccacheToTgt ticket.ccache with
      | .error why => (files, .error (.machine why))
      | .ok tgt =>
        -- A purge that is refused is logged, and the ticket is injected anyway.
        let files := if ticket.realm ≠ "" then (purgeRealm m o ticket.realm files).1 else files
        match inject m o ticket.ccache files with
        | (files, .error why) => (files, .error (.machine why))
        | (files, .ok ()) => (files, .ok ⟨ticket.principal, tgt.start, tgt.end_, tgt.renewTill⟩)

/-- What the cache holds. -/
def cacheBytes (m : Machine) (files : Files String UInt8) : Option (List UInt8) :=
  match cachePath m with
  | .error _ => none
  | .ok (path, _) => files path

/-- The credentials of what a cache holds, none where it cannot be read. -/
def credsOf (held : Option (List UInt8)) : List CachedCred :=
  match held with
  | none => []
  | some bytes =>
    match readCache bytes with
    | .error _ => []
    | .ok creds => creds

/-- The ticket-granting tickets of a realm that can still be used. -/
def usableTgts (realm : String) (now : ℤ) (held : Option (List UInt8)) : List CachedCred :=
  (credsOf held).filter fun c => isRealmTgt realm c && decide (now < c.end_)

/-- **An exchange that costs no ticket**: one that fails leaves every usable ticket of the
realm in the cache, and one that succeeds leaves the new cache there. -/
def Spares (m : Machine) (ex : Exchange Refusal) (files : Files String UInt8) (realm : String)
    (now : ℤ) : Files String UInt8 × Except (InjectError Refusal) Injected → Prop
  | (files', .error _) => ∀ c ∈ usableTgts realm now (cacheBytes m files),
      c ∈ usableTgts realm now (cacheBytes m files')
  | (files', .ok _) => ∃ ticket, ex.fetchTicket = .ok ticket ∧
      cacheBytes m files' = some ticket.ccache

/-- The purge removes what a cache holds. -/
def purges (o : Outcomes) (realm : String) (held : Option (List UInt8)) : Bool :=
  o.reads && o.removes && decide (realm ≠ "") &&
    (credsOf held).any fun c => inRealm c.client realm

/-- An exchange gets as far as the cache at a path. -/
structure Reaches (m : Machine) (ex : Exchange Refusal) (ticket : Ticket) (path : String) :
    Prop where
  trusted : ex.requireHttps = .ok ()
  fetched : ex.fetchTicket = .ok ticket
  parsed : ∃ tgt, ccacheToTgt ticket.ccache = .ok tgt
  named : ∃ named, cachePath m = .ok (path, named)

/-- The directory of a cache is there. -/
def directoryThere (o : Outcomes) (path : String) : Bool := (parent path).isNone || o.makesDirectory

/-- What is at the path of the temporary file after the purge. -/
def tempHeld (m : Machine) (o : Outcomes) (ticket : Ticket) (path : String)
    (files : Files String UInt8) : Option (List UInt8) :=
  if tempPath m path = path ∧ purges o ticket.realm (files path) then none
  else files (tempPath m path)

/-- The ways an exchange that reaches the cache costs no ticket. -/
inductive Safe (m : Machine) (o : Outcomes) (ticket : Ticket) (path : String)
    (files : Files String UInt8) (realm : String) (now : ℤ) : Prop
  /-- There is no ticket to lose. -/
  | none (h : usableTgts realm now (files path) = [])
  /-- Every step of the replacement works. -/
  | lands (hdirectory : directoryThere o path = true)
      (hlands : o.steps.lands (tempHeld m o ticket path files) = true)
  /-- The purge does nothing, and the temporary file is another one. -/
  | beside (hpurge : purges o ticket.realm (files path) = false) (htemp : tempPath m path ≠ path)
  /-- The purge does nothing, and there is no directory to write to. -/
  | refused (hpurge : purges o ticket.realm (files path) = false)
      (hdirectory : directoryThere o path = false)
  /-- The purge does nothing, and the cache, which is its own temporary file, can be
  removed neither before the write nor after it. -/
  | stuck (hpurge : purges o ticket.realm (files path) = false)
      (hfrees : o.steps.frees (files path) = false) (hcleans : o.steps.cleans = false)
  /-- What was written to the cache, which is its own temporary file, stays there and
  holds the tickets again. -/
  | again (htemp : tempPath m path = path) (hdirectory : directoryThere o path = true)
      (hfrees : o.steps.frees (tempHeld m o ticket path files) = true)
      (hcreates : o.steps.creates = true) (hcleans : o.steps.cleans = false)
      (hsame : ∀ c ∈ usableTgts realm now (files path),
        c ∈ usableTgts realm now (o.steps.leaves ticket.ccache none))

section Steps

variable {m : Machine} {o : Outcomes} {files : Files String UInt8} {path : String}

/-- A cache is read as what it holds, or is not read, or holds nothing. -/
theorem read_spec {named : Bool} (hpath : cachePath m = .ok (path, named)) :
    (LinuxTickets.read m o files = .ok (credsOf (files path)) ∧
      (o.reads = true ∨ credsOf (files path) = [])) ∨
    ((∃ why, LinuxTickets.read m o files = .error why) ∧
      (o.reads = false ∨ credsOf (files path) = [])) := by
  unfold LinuxTickets.read credsOf
  rw [hpath]
  dsimp only
  cases files path with
  | none => exact Or.inl ⟨rfl, Or.inr rfl⟩
  | some bytes =>
    dsimp only
    cases o.reads with
    | false => exact Or.inr ⟨⟨_, rfl⟩, Or.inl rfl⟩
    | true =>
      cases readCache bytes with
      | error why => exact Or.inr ⟨⟨_, rfl⟩, Or.inr rfl⟩
      | ok creds => exact Or.inl ⟨rfl, Or.inl rfl⟩

/-- A purge removes the file or leaves all as it is. -/
theorem purgeRealm_files {named : Bool} (hpath : cachePath m = .ok (path, named))
    (realm : String) :
    (if realm ≠ "" then (purgeRealm m o realm files).1 else files) =
      if purges o realm (files path) then Function.update files path none else files := by
  unfold purges purgeRealm
  by_cases hrealm : realm = ""
  · simp [hrealm]
  · rw [if_pos hrealm]
    rcases @read_spec _ o files _ _ hpath with
      ⟨hread, hreads⟩ | ⟨⟨why, hread⟩, hreads⟩
    · rw [hread]
      dsimp only
      cases hany : (credsOf (files path)).any fun c => inRealm c.client realm with
      | false => simp
      | true =>
        have hsome : o.reads = true := by
          rcases hreads with hreads | hempty
          · exact hreads
          · rw [hempty] at hany
            cases hany
        cases hremoves : o.removes with
        | false => simp [hpath]
        | true => simp [hpath, hsome, hrealm, removed]
    · rw [hread]
      rcases hreads with hreads | hempty
      · simp [hreads]
      · simp [hempty]

/-- Replacing the cache puts the new one in its place, or changes nothing but what the
path of its temporary file holds. -/
theorem inject_spec {named : Bool} (hpath : cachePath m = .ok (path, named))
    (ccache : List UInt8) :
    (directoryThere o path = true ∧ o.steps.lands (files (tempPath m path)) = true ∧
      inject m o ccache files = (Function.update (Function.update files (tempPath m path) none)
        path (some ccache), .ok ())) ∨
    (directoryThere o path = false ∧ ∃ why, inject m o ccache files = (files, .error why)) ∨
    (directoryThere o path = true ∧ o.steps.lands (files (tempPath m path)) = false ∧
      ∃ why, inject m o ccache files = (Function.update files (tempPath m path)
        (o.steps.leaves ccache (files (tempPath m path))), .error why)) := by
  unfold inject directoryThere
  rw [hpath]
  dsimp only
  by_cases hdirectory : ((parent path).isNone || o.makesDirectory) = true
  · have hnone : ((parent path).filter fun _ => !o.makesDirectory) = none := by
      cases hparent : parent path with
      | none => rfl
      | some dir =>
        rw [hparent] at hdirectory
        have hmakes : o.makesDirectory = true := by simpa using hdirectory
        simp [hmakes]
    rw [hnone]
    rcases replaced_spec o.steps (tempPath m path) path ccache files with
      ⟨hlands, hreplaced⟩ | ⟨hlands, stage, hreplaced⟩
    · rw [hreplaced]
      exact Or.inl ⟨hdirectory, hlands, rfl⟩
    · rw [hreplaced]
      exact Or.inr (Or.inr ⟨hdirectory, hlands, _, rfl⟩)
  · rw [Bool.not_eq_true, Bool.or_eq_false_iff] at hdirectory
    obtain ⟨hparent, hmakes⟩ := hdirectory
    obtain ⟨dir, hdir⟩ := Option.isSome_iff_exists.mp (by simpa using hparent)
    have hsome : ((parent path).filter fun _ => !o.makesDirectory) = some dir := by
      simp [hdir, hmakes]
    rw [hsome, hparent, hmakes]
    exact Or.inr (Or.inl ⟨rfl, _, rfl⟩)

end Steps

variable {m : Machine} {o : Outcomes} {ex : Exchange Refusal} {files : Files String UInt8}
  {ticket : Ticket} {path : String} {realm : String} {now : ℤ}

/-- An exchange that does not get as far as the cache fails and leaves all as it is. -/
theorem injectWith_early (h : ∀ ticket path, ¬Reaches m ex ticket path) :
    ∃ why, injectWith m o ex files = (files, .error why) := by
  unfold injectWith
  cases htrusted : ex.requireHttps with
  | error why => exact ⟨_, rfl⟩
  | ok u =>
    dsimp only
    cases hfetched : ex.fetchTicket with
    | error why => exact ⟨_, rfl⟩
    | ok ticket =>
      dsimp only
      cases hparsed : ccacheToTgt ticket.ccache with
      | error why => exact ⟨_, rfl⟩
      | ok tgt =>
        cases hpath : cachePath m with
        | ok named =>
          obtain ⟨path, named⟩ := named
          exact absurd ⟨htrusted, hfetched, ⟨tgt, hparsed⟩, ⟨named, hpath⟩⟩ (h ticket path)
        | error why =>
          have hread : LinuxTickets.read m o files = .error why := by
            unfold LinuxTickets.read
            rw [hpath]
          have hpurge : (purgeRealm m o ticket.realm files).1 = files := by
            unfold purgeRealm
            rw [hread]
          refine ⟨.machine why, ?_⟩
          simp only [hpurge, ite_self, inject, hpath]

/-- An exchange that gets as far as the cache purges it and then replaces it. -/
theorem injectWith_reaches (h : Reaches m ex ticket path) :
    ∃ injected, injectWith m o ex files =
      match inject m o ticket.ccache (if purges o ticket.realm (files path) then
        Function.update files path none else files) with
      | (files, .error why) => (files, .error (.machine why))
      | (files, .ok ()) => (files, .ok injected) := by
  obtain ⟨htrusted, hfetched, ⟨tgt, hparsed⟩, named, hpath⟩ := h
  refine ⟨⟨ticket.principal, tgt.start, tgt.end_, tgt.renewTill⟩, ?_⟩
  unfold injectWith
  rw [htrusted]
  dsimp only
  rw [hfetched]
  dsimp only
  rw [hparsed]
  dsimp only
  rw [purgeRealm_files hpath]

/-- What a cache that is its own temporary file holds after an attempt at it that was not
undone: what it held, or what was written. -/
theorem leaves_frees {s : Steps} {content : List UInt8} {old : Option (List UInt8)}
    (h : s.frees old = true) : s.leaves content old = s.leaves content none := by
  unfold Steps.leaves
  rw [h]
  simp [Steps.frees]

/-- Tickets are all in a cache that is gone only when there are none. -/
theorem usableTgts_gone {tickets : List CachedCred}
    (h : ∀ c ∈ tickets, c ∈ usableTgts realm now none) : tickets = [] := by
  apply List.eq_nil_iff_forall_not_mem.mpr
  intro c hc
  have hnone := h c hc
  rw [show usableTgts realm now none = [] from rfl] at hnone
  exact List.not_mem_nil hnone

/-- What the cache holds after a replacement that failed, and what it takes to keep its
tickets. -/
theorem leaves_keeps_iff (hlands : o.steps.lands (tempHeld m o ticket path files) = false)
    (hdirectory : directoryThere o path = true) :
    (∀ c ∈ usableTgts realm now (files path), c ∈ usableTgts realm now
      (if tempPath m path = path then
        o.steps.leaves ticket.ccache (tempHeld m o ticket path files)
      else if purges o ticket.realm (files path) then none else files path)) ↔
      Safe m o ticket path files realm now := by
  by_cases hempty : usableTgts realm now (files path) = []
  · rw [hempty]
    exact ⟨fun _ => .none hempty, fun _ c hc => absurd hc List.not_mem_nil⟩
  by_cases htemp : tempPath m path = path
  · rw [if_pos htemp]
    have hheld : tempHeld m o ticket path files =
        if purges o ticket.realm (files path) then none else files path := by
      unfold tempHeld
      rw [htemp]
      simp
    cases hfrees : o.steps.frees (tempHeld m o ticket path files) with
    | false =>
      have hpurge : purges o ticket.realm (files path) = false := by
        cases hpurge : purges o ticket.realm (files path) with
        | false => rfl
        | true =>
          rw [hheld, hpurge] at hfrees
          simp [Steps.frees] at hfrees
      rw [hheld, hpurge, if_neg Bool.false_ne_true] at hfrees
      rw [hheld, hpurge, if_neg Bool.false_ne_true, Steps.leaves, hfrees]
      cases hcleans : o.steps.cleans with
      | false => exact ⟨fun _ => .stuck hpurge hfrees hcleans, fun _ c hc => hc⟩
      | true =>
        constructor
        · intro h
          exact absurd (usableTgts_gone h) hempty
        · intro h
          cases h with
          | none h => exact absurd h hempty
          | lands _ h => rw [hlands] at h; cases h
          | beside _ h => exact absurd htemp h
          | refused _ h => rw [hdirectory] at h; cases h
          | stuck _ _ h => rw [hcleans] at h; cases h
          | again _ _ _ _ h _ => rw [hcleans] at h; cases h
    | true =>
      rw [leaves_frees hfrees]
      have hnot : ∀ h : purges o ticket.realm (files path) = false,
          o.steps.frees (files path) ≠ false := by
        intro hpurge hstuck
        rw [hheld, hpurge, if_neg Bool.false_ne_true, hstuck] at hfrees
        cases hfrees
      constructor
      · intro h
        cases hcleans : o.steps.cleans with
        | true =>
          simp only [Steps.leaves, hcleans, if_true] at h
          exact absurd (usableTgts_gone h) hempty
        | false =>
          cases hcreates : o.steps.creates with
          | false =>
            simp only [Steps.leaves, hcleans, hcreates] at h
            exact absurd (usableTgts_gone (by simpa [Steps.frees] using h)) hempty
          | true => exact .again htemp hdirectory hfrees hcreates hcleans h
      · intro h
        cases h with
        | none h => exact absurd h hempty
        | lands _ h => rw [hlands] at h; cases h
        | beside _ h => exact absurd htemp h
        | refused _ h => rw [hdirectory] at h; cases h
        | stuck hpurge h _ => exact absurd h (hnot hpurge)
        | again _ _ _ _ _ h => exact h
  · rw [if_neg htemp]
    cases hpurge : purges o ticket.realm (files path) with
    | false => exact ⟨fun _ => .beside hpurge htemp, fun _ c hc => hc⟩
    | true =>
      constructor
      · intro h
        exact absurd (usableTgts_gone h) hempty
      · intro h
        cases h with
        | none h => exact absurd h hempty
        | lands _ h => rw [hlands] at h; cases h
        | beside h _ => rw [hpurge] at h; cases h
        | refused h _ => rw [hpurge] at h; cases h
        | stuck h _ _ => rw [hpurge] at h; cases h
        | again h _ _ _ _ _ => exact absurd h htemp

/-- What it takes to keep the tickets of a cache when there is no directory to write to. -/
theorem refused_keeps_iff (hdirectory : directoryThere o path = false) :
    (∀ c ∈ usableTgts realm now (files path), c ∈ usableTgts realm now
      ((if purges o ticket.realm (files path) then Function.update files path none else files)
        path)) ↔ Safe m o ticket path files realm now := by
  by_cases hempty : usableTgts realm now (files path) = []
  · rw [hempty]
    exact ⟨fun _ => .none hempty, fun _ c hc => absurd hc List.not_mem_nil⟩
  cases hpurge : purges o ticket.realm (files path) with
  | false => exact ⟨fun _ => .refused hpurge hdirectory, fun _ c hc => hc⟩
  | true =>
    rw [if_pos rfl, Function.update_self]
    constructor
    · intro h
      exact absurd (usableTgts_gone h) hempty
    · intro h
      cases h with
      | none h => exact absurd h hempty
      | lands h _ => rw [hdirectory] at h; cases h
      | beside h _ => rw [hpurge] at h; cases h
      | refused h _ => rw [hpurge] at h; cases h
      | stuck h _ _ => rw [hpurge] at h; cases h
      | again _ h _ _ _ _ => rw [hdirectory] at h; cases h

/-- **When an exchange costs no ticket**: exactly when, if it gets as far as the cache, one of
the safe ways is taken. -/
theorem injectWith_spares_iff :
    Spares m ex files realm now (injectWith m o ex files) ↔
      ∀ ticket path, Reaches m ex ticket path → Safe m o ticket path files realm now := by
  by_cases hreach : ∃ ticket path, Reaches m ex ticket path
  · obtain ⟨ticket, path, hreach⟩ := hreach
    have hsole : (∀ ticket path, Reaches m ex ticket path → Safe m o ticket path files realm now) ↔
        Safe m o ticket path files realm now := by
      constructor
      · intro h
        exact h ticket path hreach
      · intro h ticket' path' hreach'
        obtain ⟨_, hfetched, _, _, hpath⟩ := hreach
        obtain ⟨_, hfetched', _, _, hpath'⟩ := hreach'
        rw [hfetched] at hfetched'
        rw [hpath] at hpath'
        cases hfetched'
        cases hpath'
        exact h
    rw [hsole]
    obtain ⟨injected, hinjected⟩ := @injectWith_reaches _ _ o _ files _ _ hreach
    obtain ⟨_, hfetched, _, named, hpath⟩ := hreach
    have hbytes : ∀ files, cacheBytes m files = files path := by
      intro files
      rw [cacheBytes, hpath]
    have hheld : (if purges o ticket.realm (files path) then Function.update files path none
        else files) (tempPath m path) = tempHeld m o ticket path files := by
      unfold tempHeld
      by_cases htemp : tempPath m path = path
      · cases purges o ticket.realm (files path) with
        | false => simp
        | true => simp [htemp]
      · cases purges o ticket.realm (files path) with
        | false => simp
        | true => simp [htemp]
    rw [hinjected]
    rcases @inject_spec _ _ (if purges o ticket.realm (files path) then
        Function.update files path none else files) _ _ hpath ticket.ccache with
      ⟨hdirectory, hlands, hinject⟩ | ⟨hdirectory, why, hinject⟩ | ⟨hdirectory, hlands, why, hinject⟩
    · rw [hheld] at hlands
      rw [hinject]
      refine ⟨fun _ => .lands hdirectory hlands, fun _ => ⟨ticket, hfetched, ?_⟩⟩
      rw [hbytes, Function.update_self]
    · rw [hinject]
      unfold Spares
      dsimp only
      rw [hbytes, hbytes]
      exact refused_keeps_iff hdirectory
    · rw [hheld] at hlands hinject
      rw [hinject]
      unfold Spares
      dsimp only
      rw [hbytes, hbytes, ← leaves_keeps_iff hlands hdirectory]
      have hafter : Function.update (if purges o ticket.realm (files path) then
          Function.update files path none else files) (tempPath m path)
            (o.steps.leaves ticket.ccache (tempHeld m o ticket path files)) path =
          if tempPath m path = path then
            o.steps.leaves ticket.ccache (tempHeld m o ticket path files)
          else if purges o ticket.realm (files path) then none else files path := by
        by_cases htemp : tempPath m path = path
        · rw [if_pos htemp, htemp, Function.update_self]
        · rw [if_neg htemp, Function.update_of_ne (Ne.symm htemp)]
          cases purges o ticket.realm (files path) with
          | false => rfl
          | true => simp
      rw [hafter]
  · obtain ⟨why, hwhy⟩ := @injectWith_early _ _ o _ files
      fun ticket path h => hreach ⟨ticket, path, h⟩
    rw [hwhy]
    exact ⟨fun _ ticket path h => absurd ⟨ticket, path, h⟩ hreach, fun _ c hc => hc⟩

/-- A machine whose environment names the cache. -/
def namedMachine : Machine := ⟨some "FILE:/tmp/cache", 1000, 7⟩

/-- A machine whose disk is full. -/
def fullDisk : Outcomes where
  reads := true
  removes := true
  makesDirectory := true
  steps := ⟨true, true, some 0, true, true, true⟩

/-- A broker that hands out a ticket of one week. -/
def renewal : Exchange Unit := ⟨.ok (), .ok ⟨"a@X", Issuerd.weekCache.encode⟩⟩

/-- A cache that holds such a ticket. -/
def heldFiles : Files String UInt8 := fun path =>
  if path = "/tmp/cache" then some Issuerd.weekCache.encode else none

/-- An exchange that fails for want of room costs the ticket that was held. -/
theorem injectWith_loses :
    ¬Spares namedMachine renewal heldFiles "X" 5
      (injectWith namedMachine fullDisk renewal heldFiles) := by
  have hfails : (injectWith namedMachine fullDisk renewal heldFiles).2.toOption.isNone := by
    decide +kernel
  have hheld : usableTgts "X" 5 (cacheBytes namedMachine heldFiles) ≠ [] := by decide +kernel
  have hgone : cacheBytes namedMachine
      (injectWith namedMachine fullDisk renewal heldFiles).1 = none := by decide +kernel
  revert hfails hgone
  rcases injectWith namedMachine fullDisk renewal heldFiles with ⟨files, why | injected⟩
  · intro _ hgone hspares
    unfold Spares at hspares
    dsimp only at hspares hgone
    rw [hgone] at hspares
    exact hheld (usableTgts_gone hspares)
  · intro hfails
    cases hfails

end Kerbridge.Session

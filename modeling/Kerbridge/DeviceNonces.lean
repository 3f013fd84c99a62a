import Mathlib.Data.List.AList
import Kerbridge.DeviceAssertion
import Kerbridge.Runs

/-!
# Nonces are spent once

The store of issued nonces as the broker holds it, under calls that overlap. A
call touches the store in one critical section only: `issue` prunes and inserts,
`consume` removes. A verification first checks its signature, and any number of
other calls may pass before it reaches the store.
-/

namespace Kerbridge.DeviceNonces

open UnicodeText StoredIdentity DeviceAssertion Fallible Runs

/-- The nonces that were issued and not yet spent. -/
structure NonceStore where
  /-- How long a nonce lives, in seconds. -/
  ttl : ℤ
  /-- The ceiling on outstanding nonces. -/
  max : ℕ
  /-- Each outstanding nonce with its deadline. -/
  inner : AList fun _ : String => ℤ

/-- `Nonces::new`. -/
def NonceStore.new (ttl : ℤ) (max : ℕ) : NonceStore := ⟨ttl, max, ∅⟩

/-- `HashMap::retain` over the deadlines. -/
def retain (inner : AList fun _ : String => ℤ) (now : ℤ) : AList fun _ : String => ℤ where
  entries := inner.entries.filter fun p => now < p.2
  nodupKeys := inner.nodupKeys.sublist List.filter_sublist

/-- A nonce survives the pruning with its deadline when it has not expired. -/
theorem lookup_retain {inner : AList fun _ : String => ℤ} {now expiry : ℤ} {nonce : String} :
    (retain inner now).lookup nonce = some expiry ↔
      inner.lookup nonce = some expiry ∧ now < expiry := by
  have hmem : ∀ s : AList fun _ : String => ℤ,
      s.lookup nonce = some expiry ↔ (⟨nonce, expiry⟩ : Sigma fun _ : String => ℤ) ∈ s.entries :=
    fun s => AList.mem_lookup_iff
  rw [hmem, hmem, retain, List.mem_filter, decide_eq_true_eq]

variable [DeviceLibraries]

/-- A fresh nonce out of 16 random bytes, or nothing when none could be drawn or
too many are outstanding. -/
def NonceStore.issue (s : NonceStore) (draw : Option (List UInt8)) (now : ℤ) :
    Option String × NonceStore :=
  match draw with
  | none => (none, s)
  | some bytes =>
    let nonce := DeviceLibraries.b64urlEncode bytes
    let expiry := now + s.ttl
    let inner := retain s.inner now
    if s.max ≤ inner.entries.length then (none, { s with inner := inner })
    else (some nonce, { s with inner := inner.insert nonce expiry })

omit [DeviceLibraries] in
/-- Spends a nonce. It is gone whatever the answer is. -/
def NonceStore.consume (s : NonceStore) (nonce : String) (now : ℤ) : Bool × NonceStore :=
  let (expiry, inner) := s.inner.extract nonce
  (expiry.any fun expiry => decide (now < expiry), { s with inner := inner })

/-- A verification whose signature is checked and whose nonce is not yet spent. -/
structure Waiting where
  assertion : String
  payload : Payload
  key : List UInt8
  /-- The clock reading the call was made at. -/
  now : ℤ

/-- The second part of a verification. -/
def Waiting.spend (call : Waiting) (store : NonceStore) : Except String DeviceProof × NonceStore :=
  let (spent, store) := store.consume call.payload.nonce call.now
  if !spent then (.error "nonce is unknown, expired or already spent", store)
  else
    match ExternalIdentity.decode call.payload.identity with
    | .error e => (.error ("claimed identity does not decode: " ++ e.text), store)
    | .ok identity => (.ok ⟨identity, thumbprint call.key⟩, store)

/-- What happens to the broker. -/
inductive Event where
  | issue (draw : Option (List UInt8)) (now : ℤ)
  /-- A verification begins, and checks the signature. -/
  | check (assertion : String) (now : ℤ)
  /-- A waiting verification reaches the store. -/
  | spend (call : ℕ)

/-- How a call ended. -/
inductive Outcome where
  | issued (nonce : String) (expiry : ℤ)
  | withheld
  | accepted (call : Waiting) (proof : DeviceProof)
  | refused (why : String)

/-- The store, the calls in flight, and every answer given so far. -/
structure Broker where
  store : NonceStore
  waiting : List Waiting
  log : List Outcome

/-- The answer of an `issue`. -/
def issueOutcome (expiry : ℤ) : Option String → Outcome
  | some nonce => .issued nonce expiry
  | none => .withheld

/-- The answer of a verification that reached the store. -/
def spendOutcome (call : Waiting) : Except String DeviceProof → Outcome
  | .ok proof => .accepted call proof
  | .error why => .refused why

/-- One step of the broker. -/
def next (audience : String) (b : Broker) : Event → Broker
  | .issue draw now =>
    let (nonce, store) := b.store.issue draw now
    { b with store := store, log := b.log ++ [issueOutcome (now + b.store.ttl) nonce] }
  | .check assertion now =>
    match verifySignature assertion audience now with
    | .error why => { b with log := b.log ++ [.refused why] }
    | .ok (payload, key) => { b with waiting := b.waiting ++ [⟨assertion, payload, key, now⟩] }
  | .spend i =>
    match b.waiting[i]? with
    | none => b
    | some call =>
      let (answer, store) := call.spend b.store
      ⟨store, b.waiting.eraseIdx i, b.log ++ [spendOutcome call answer]⟩

/-- A broker that has answered nothing. -/
def start (ttl : ℤ) (max : ℕ) : Broker := ⟨NonceStore.new ttl max, [], []⟩

omit [DeviceLibraries] in
/-- The store, read as a map, spends as the map does. -/
theorem NonceStore.consume_view (s : NonceStore) (nonce : String) (now : ℤ) :
    Nonces.consume (fun n => s.inner.lookup n) nonce now =
      ((s.consume nonce now).1, fun n => (s.consume nonce now).2.inner.lookup n) := by
  unfold NonceStore.consume
  rw [AList.extract_eq_lookup_erase]
  refine Prod.ext rfl ?_
  funext n
  by_cases hn : n = nonce
  · subst hn
    simp [Nonces.consume]
  · simp [Nonces.consume, hn, AList.lookup_erase_ne hn]

/-- A check followed at once by its spending is one verification. -/
theorem verify_eq_spend (assertion audience : String) (s : NonceStore) (now : ℤ) {payload : Payload}
    {key : List UInt8} (h : verifySignature assertion audience now = .ok (payload, key)) :
    verify assertion audience (fun n => s.inner.lookup n) now =
      (((⟨assertion, payload, key, now⟩ : Waiting).spend s).1,
        fun n => ((⟨assertion, payload, key, now⟩ : Waiting).spend s).2.inner.lookup n) := by
  unfold verify Waiting.spend
  rw [h]
  dsimp only
  rw [s.consume_view]
  dsimp only
  split
  · rfl
  · cases ExternalIdentity.decode payload.identity with
    | error e => rfl
    | ok identity => rfl

/-- The nonces spent by an answer that accepts. -/
def Outcome.spent : Outcome → Option String
  | .accepted call _ => some call.payload.nonce
  | _ => none

/-- What an accepted assertion has shown: its key signed the presented payload,
for this deployment, and the proof names that key and the claimed identity. -/
def Vouched (audience : String) (call : Waiting) (proof : DeviceProof) : Prop :=
  call.payload.aud = audience ∧ Signed call.assertion call.key proof.identity ∧
    proof.thumbprint = thumbprint call.key

/-- Every nonce is good for one accepted assertion, in its own time. -/
structure OneShot (audience : String) (log : List Outcome) : Prop where
  /-- No nonce is spent by two accepted assertions. -/
  once : (log.filterMap Outcome.spent).Nodup
  /-- An accepted assertion spends a nonce issued before, and neither the nonce nor
  the assertion has expired. -/
  issued : ∀ past call proof, past ++ [.accepted call proof] <+: log →
    (∃ expiry, .issued call.payload.nonce expiry ∈ past ∧ call.now < expiry) ∧
      call.now < call.payload.exp
  /-- The proof is that of the signing key. -/
  vouched : ∀ call proof, .accepted call proof ∈ log → Vouched audience call proof

/-- A drawn nonce was not issued before. -/
def Unrepeated (b : Broker) (e : Event) : Prop :=
  ∀ bytes now expiry, e = .issue (some bytes) now →
    .issued (DeviceLibraries.b64urlEncode bytes) expiry ∉ b.log

/-- What one step leaves of the store. -/
def Kept (audience : String) (max : ℕ) (b : Broker) (e : Event) : Prop :=
  match e with
  | .issue _ now =>
    (∀ nonce expiry, b.store.inner.lookup nonce = some expiry → now < expiry →
      (next audience b e).store.inner.lookup nonce = some expiry) ∧
    (next audience b e).store.inner.entries.length ≤ max
  | .check _ _ => (next audience b e).store = b.store
  | .spend i => ∀ nonce, (∀ call, b.waiting[i]? = some call → call.payload.nonce ≠ nonce) →
      (next audience b e).store.inner.lookup nonce = b.store.inner.lookup nonce

/-- What holds of the broker between two steps. -/
structure Sound (audience : String) (max : ℕ) (b : Broker) : Prop where
  ceiling : b.store.max = max
  few : b.store.inner.entries.length ≤ max
  /-- An outstanding nonce was issued with its deadline. -/
  held : ∀ nonce expiry, b.store.inner.lookup nonce = some expiry → .issued nonce expiry ∈ b.log
  /-- An outstanding nonce was never spent. -/
  unspent : ∀ nonce expiry, b.store.inner.lookup nonce = some expiry →
    nonce ∉ b.log.filterMap Outcome.spent
  /-- A waiting call has a signature that verifies. -/
  checked : ∀ call ∈ b.waiting,
    verifySignature call.assertion audience call.now = .ok (call.payload, call.key)
  told : OneShot audience b.log

/-- A fresh broker is sound. -/
theorem sound_start (audience : String) (ttl : ℤ) (max : ℕ) :
    Sound audience max (start ttl max) := by
  refine ⟨rfl, Nat.zero_le max, ?_, ?_, ?_, ?_, ?_, ?_⟩
  · intro nonce expiry h
    simp [start, NonceStore.new] at h
  · intro nonce expiry h
    simp [start, NonceStore.new] at h
  · intro call h
    simp [start] at h
  · simp [start]
  · intro past call proof h
    simp [start] at h
  · intro call proof h
    simp [start] at h

omit [DeviceLibraries] in
/-- The last answer of a log, or an answer before it. -/
theorem prefix_snoc {past log : List Outcome} {o last : Outcome}
    (h : past ++ [o] <+: log ++ [last]) : past = log ∧ o = last ∨ past ++ [o] <+: log := by
  rcases List.prefix_concat_iff.mp h with heq | hlog
  · have hparts := List.append_inj' heq rfl
    exact Or.inl ⟨hparts.1, List.singleton_inj.mp hparts.2⟩
  · exact Or.inr hlog

/-- An answer that accepts nothing keeps the log one-shot. -/
theorem OneShot.snoc {audience : String} {log : List Outcome} {o : Outcome}
    (h : OneShot audience log) (ho : o.spent = none) : OneShot audience (log ++ [o]) := by
  have hnot : ∀ call proof, o ≠ .accepted call proof := by
    intro call proof heq
    rw [heq] at ho
    cases ho
  refine ⟨?_, ?_, ?_⟩
  · have hsame : (log ++ [o]).filterMap Outcome.spent = log.filterMap Outcome.spent := by
      simp [ho]
    rw [hsame]
    exact h.once
  · intro past call proof hpre
    rcases prefix_snoc hpre with ⟨_, heq⟩ | hlog
    · exact absurd heq.symm (hnot call proof)
    · exact h.issued past call proof hlog
  · intro call proof hmem
    rcases List.mem_append.mp hmem with hlog | hlast
    · exact h.vouched call proof hlog
    · exact absurd (List.mem_singleton.mp hlast).symm (hnot call proof)

/-- Accepting an assertion keeps the log one-shot when its nonce was issued and
never spent. -/
theorem OneShot.accept {audience : String} {log : List Outcome} {call : Waiting}
    {proof : DeviceProof} {expiry : ℤ} (h : OneShot audience log)
    (hfresh : call.payload.nonce ∉ log.filterMap Outcome.spent)
    (hissued : .issued call.payload.nonce expiry ∈ log) (hexpiry : call.now < expiry)
    (hexp : call.now < call.payload.exp) (hv : Vouched audience call proof) :
    OneShot audience (log ++ [.accepted call proof]) := by
  refine ⟨?_, ?_, ?_⟩
  · have hsnoc : (log ++ [Outcome.accepted call proof]).filterMap Outcome.spent =
        log.filterMap Outcome.spent ++ [call.payload.nonce] := by
      simp [Outcome.spent]
    rw [hsnoc]
    exact h.once.append (List.nodup_singleton _) (List.disjoint_singleton.mpr hfresh)
  · intro past call' proof' hpre
    rcases prefix_snoc hpre with ⟨hpast, heq⟩ | hlog
    · cases heq
      rw [hpast]
      exact ⟨⟨expiry, hissued, hexpiry⟩, hexp⟩
    · exact h.issued past call' proof' hlog
  · intro call' proof' hmem
    rcases List.mem_append.mp hmem with hlog | hlast
    · exact h.vouched call' proof' hlog
    · cases List.mem_singleton.mp hlast
      exact hv

/-- A nonce that is spent was issued. -/
theorem OneShot.issued_of_spent {audience : String} {log : List Outcome} {nonce : String}
    (h : OneShot audience log) (hs : nonce ∈ log.filterMap Outcome.spent) :
    ∃ expiry, .issued nonce expiry ∈ log := by
  obtain ⟨o, hmem, ho⟩ := List.mem_filterMap.mp hs
  cases o with
  | accepted call proof =>
    obtain ⟨past, future, hlog⟩ := List.append_of_mem hmem
    have hpre : past ++ [.accepted call proof] <+: log := ⟨future, by simp [hlog]⟩
    obtain ⟨⟨expiry, hissued, _⟩, _⟩ := h.issued past call proof hpre
    cases ho
    exact ⟨expiry, List.IsPrefix.subset hpre (List.mem_append_left _ hissued)⟩
  | issued nonce expiry => cases ho
  | withheld => cases ho
  | refused why => cases ho

/-- What an `issue` can do: nothing, only prune, or prune and insert. -/
theorem NonceStore.issue_cases (s : NonceStore) (draw : Option (List UInt8)) (now : ℤ) :
    s.issue draw now = (none, s) ∨
    s.issue draw now = (none, { s with inner := retain s.inner now }) ∨
    ∃ bytes, draw = some bytes ∧ (retain s.inner now).entries.length < s.max ∧
      s.issue draw now = (some (DeviceLibraries.b64urlEncode bytes),
        { s with
          inner := (retain s.inner now).insert (DeviceLibraries.b64urlEncode bytes) (now + s.ttl) }) := by
  cases draw with
  | none => exact Or.inl rfl
  | some bytes =>
    by_cases hfull : s.max ≤ (retain s.inner now).entries.length
    · exact Or.inr (Or.inl (by simp [NonceStore.issue, hfull]))
    · exact Or.inr (Or.inr ⟨bytes, rfl, by omega, by simp [NonceStore.issue, hfull]⟩)

/-- What a spending does: its nonce is gone, and it accepts only what was held and
has not expired. -/
theorem Waiting.spend_cases (call : Waiting) (s : NonceStore) :
    (call.spend s).2 = { s with inner := s.inner.erase call.payload.nonce } ∧
    ∀ proof, (call.spend s).1 = .ok proof →
      (∃ expiry, s.inner.lookup call.payload.nonce = some expiry ∧ call.now < expiry) ∧
      ExternalIdentity.decode call.payload.identity = .ok proof.identity ∧
      proof.thumbprint = thumbprint call.key := by
  unfold Waiting.spend NonceStore.consume
  rw [AList.extract_eq_lookup_erase]
  cases hl : s.inner.lookup call.payload.nonce with
  | none => exact ⟨rfl, fun proof h => by cases h⟩
  | some expiry =>
    by_cases hnow : call.now < expiry
    · cases hid : ExternalIdentity.decode call.payload.identity with
      | error e => exact ⟨by simp [hnow], fun proof h => by simp [hnow] at h⟩
      | ok identity =>
        refine ⟨by simp [hnow], ?_⟩
        intro proof h
        have hproof : ⟨identity, thumbprint call.key⟩ = proof := by simpa [hnow] using h
        rw [← hproof]
        exact ⟨⟨expiry, rfl, hnow⟩, rfl, rfl⟩
    · exact ⟨by simp [hnow], fun proof h => by simp [hnow] at h⟩

omit [DeviceLibraries] in
/-- Pruning never adds. -/
theorem retain_length (inner : AList fun _ : String => ℤ) (now : ℤ) :
    (retain inner now).entries.length ≤ inner.entries.length :=
  List.length_filter_le _ _

omit [DeviceLibraries] in
/-- Inserting adds at most one. -/
theorem insert_length (inner : AList fun _ : String => ℤ) (nonce : String) (expiry : ℤ) :
    (inner.insert nonce expiry).entries.length ≤ inner.entries.length + 1 := by
  have hentries : (inner.insert nonce expiry).entries = ⟨nonce, expiry⟩ :: inner.entries.kerase nonce :=
    AList.entries_insert
  rw [hentries, List.length_cons]
  exact Nat.add_le_add_right (List.kerase_sublist nonce inner.entries).length_le 1

omit [DeviceLibraries] in
/-- Spending never adds. -/
theorem erase_length (inner : AList fun _ : String => ℤ) (nonce : String) :
    (inner.erase nonce).entries.length ≤ inner.entries.length :=
  (List.kerase_sublist nonce inner.entries).length_le

/-- A step that issues. -/
theorem sound_issue {audience : String} {max : ℕ} {b : Broker} {draw : Option (List UInt8)}
    {now : ℤ} (h : Sound audience max b) (hu : Unrepeated b (.issue draw now)) :
    Kept audience max b (.issue draw now) ∧ Sound audience max (next audience b (.issue draw now)) := by
  have hlog : ∀ nonce expiry, .issued nonce expiry ∈ b.log → ∀ o, .issued nonce expiry ∈ b.log ++ [o] :=
    fun nonce expiry hmem o => List.mem_append_left _ hmem
  have hspent : ∀ o : Outcome, o.spent = none →
      (b.log ++ [o]).filterMap Outcome.spent = b.log.filterMap Outcome.spent := by
    intro o ho
    simp [ho]
  have hprune := retain_length b.store.inner now
  have hfew := h.few
  rcases b.store.issue_cases draw now with hi | hi | ⟨bytes, hdraw, hroom, hi⟩
  · simp only [Kept, next, hi, issueOutcome]
    refine ⟨⟨fun _ _ hl _ => hl, hfew⟩, h.ceiling, hfew, ?_, ?_, h.checked, h.told.snoc rfl⟩
    · intro nonce expiry hl
      exact hlog nonce expiry (h.held nonce expiry hl) _
    · rw [hspent _ rfl]
      exact h.unspent
  · simp only [Kept, next, hi, issueOutcome]
    refine ⟨⟨fun _ _ hl hnow => lookup_retain.mpr ⟨hl, hnow⟩, hprune.trans hfew⟩, h.ceiling,
      hprune.trans hfew, ?_, ?_, h.checked, h.told.snoc rfl⟩
    · intro nonce expiry hl
      exact hlog nonce expiry (h.held nonce expiry (lookup_retain.mp hl).1) _
    · rw [hspent _ rfl]
      intro nonce expiry hl
      exact h.unspent nonce expiry (lookup_retain.mp hl).1
  · -- The nonce is new: it is neither outstanding nor spent.
    have hnew : ∀ expiry, .issued (DeviceLibraries.b64urlEncode bytes) expiry ∉ b.log :=
      fun expiry => hu bytes now expiry (by rw [hdraw])
    have hinsert := insert_length (retain b.store.inner now) (DeviceLibraries.b64urlEncode bytes)
      (now + b.store.ttl)
    have hceiling := h.ceiling
    have hroom' : ((retain b.store.inner now).insert (DeviceLibraries.b64urlEncode bytes)
        (now + b.store.ttl)).entries.length ≤ max := by omega
    simp only [Kept, next, hi, issueOutcome]
    refine ⟨⟨?_, hroom'⟩, hceiling, hroom', ?_, ?_, h.checked, h.told.snoc rfl⟩
    · intro nonce expiry hl hnow
      have hne : nonce ≠ DeviceLibraries.b64urlEncode bytes := by
        intro heq
        exact hnew expiry (heq ▸ h.held nonce expiry hl)
      rw [AList.lookup_insert_ne hne]
      exact lookup_retain.mpr ⟨hl, hnow⟩
    · intro nonce expiry hl
      by_cases hne : nonce = DeviceLibraries.b64urlEncode bytes
      · subst hne
        rw [AList.lookup_insert] at hl
        cases hl
        exact List.mem_append_right _ (List.mem_singleton.mpr rfl)
      · rw [AList.lookup_insert_ne hne] at hl
        exact hlog nonce expiry (h.held nonce expiry (lookup_retain.mp hl).1) _
    · rw [hspent _ rfl]
      intro nonce expiry hl hmem
      by_cases hne : nonce = DeviceLibraries.b64urlEncode bytes
      · obtain ⟨expiry', hissued⟩ := h.told.issued_of_spent hmem
        exact hnew expiry' (hne ▸ hissued)
      · rw [AList.lookup_insert_ne hne] at hl
        exact h.unspent nonce expiry (lookup_retain.mp hl).1 hmem

/-- A step that begins a verification. -/
theorem sound_check {audience : String} {max : ℕ} {b : Broker} {assertion : String} {now : ℤ}
    (h : Sound audience max b) :
    Kept audience max b (.check assertion now) ∧
      Sound audience max (next audience b (.check assertion now)) := by
  cases hv : verifySignature assertion audience now with
  | error why =>
    simp only [Kept, next, hv]
    refine ⟨trivial, h.ceiling, h.few, ?_, ?_, h.checked, h.told.snoc rfl⟩
    · intro nonce expiry hl
      exact List.mem_append_left _ (h.held nonce expiry hl)
    · have hspent : (b.log ++ [Outcome.refused why]).filterMap Outcome.spent =
          b.log.filterMap Outcome.spent := by
        simp [Outcome.spent]
      rw [hspent]
      exact h.unspent
  | ok signed =>
    obtain ⟨payload, key⟩ := signed
    simp only [Kept, next, hv]
    refine ⟨trivial, h.ceiling, h.few, h.held, h.unspent, ?_, h.told⟩
    intro call hmem
    rcases List.mem_append.mp hmem with hold | hlast
    · exact h.checked call hold
    · cases List.mem_singleton.mp hlast
      exact hv

/-- A step that spends a nonce. -/
theorem sound_spend {audience : String} {max : ℕ} {b : Broker} {i : ℕ}
    (h : Sound audience max b) :
    Kept audience max b (.spend i) ∧ Sound audience max (next audience b (.spend i)) := by
  cases hw : b.waiting[i]? with
  | none =>
    simp only [Kept, next, hw]
    exact ⟨fun _ _ => trivial, h⟩
  | some call =>
    have hcall := h.checked call (List.mem_of_getElem? hw)
    obtain ⟨hstore, hanswer⟩ := call.spend_cases b.store
    have herase := erase_length b.store.inner call.payload.nonce
    have hfew := h.few
    -- What is left of the store was there before, under another nonce.
    have hleft : ∀ nonce expiry, (b.store.inner.erase call.payload.nonce).lookup nonce = some expiry →
        nonce ≠ call.payload.nonce ∧ b.store.inner.lookup nonce = some expiry := by
      intro nonce expiry hl
      by_cases hne : nonce = call.payload.nonce
      · subst hne
        simp at hl
      · exact ⟨hne, by rwa [AList.lookup_erase_ne hne] at hl⟩
    simp only [Kept, next, hw, hstore]
    refine ⟨?_, h.ceiling, herase.trans hfew, ?_, ?_, ?_, ?_⟩
    · intro nonce hother
      exact AList.lookup_erase_ne fun heq => hother call rfl heq.symm
    · intro nonce expiry hl
      exact List.mem_append_left _ (h.held nonce expiry (hleft nonce expiry hl).2)
    · intro nonce expiry hl hmem
      obtain ⟨hne, hl⟩ := hleft nonce expiry hl
      rw [List.filterMap_append, List.mem_append] at hmem
      rcases hmem with hold | hlast
      · exact h.unspent nonce expiry hl hold
      · cases ha : (call.spend b.store).1 with
        | error why => simp [ha, spendOutcome, Outcome.spent] at hlast
        | ok proof =>
          simp only [ha, spendOutcome, Outcome.spent, List.filterMap_cons, List.filterMap_nil,
            List.mem_singleton] at hlast
          exact hne hlast
    · intro call' hmem
      exact h.checked call' (List.mem_of_mem_eraseIdx hmem)
    · cases ha : (call.spend b.store).1 with
      | error why => exact h.told.snoc rfl
      | ok proof =>
        obtain ⟨⟨expiry, hl, hnow⟩, hid, hthumb⟩ := hanswer proof ha
        obtain ⟨haud, hexp, hsigned⟩ := verifySignature_ok hcall
        exact h.told.accept (h.unspent _ expiry hl) (h.held _ expiry hl) hnow hexp
          ⟨haud, hsigned _ hid, hthumb⟩

/-- In every order of calls, at any clock readings, each issued nonce is good for
one accepted assertion, and no step loses an unexpired nonce it does not spend. -/
theorem one_shot {audience : String} {ttl : ℤ} {max : ℕ} {events : List Event}
    (h : Everywhere (next audience) Unrepeated (start ttl max) events) :
    OneShot audience (run (next audience) (start ttl max) events).log ∧
      Everywhere (next audience) (Kept audience max) (start ttl max) events := by
  have hstep : ∀ b e, Sound audience max b → Unrepeated b e →
      Kept audience max b e ∧ Sound audience max (next audience b e) := by
    intro b e hb hu
    cases e with
    | issue draw now => exact sound_issue hb hu
    | check assertion now => exact sound_check hb
    | spend i => exact sound_spend hb
  obtain ⟨hkept, hsound⟩ := everywhere_of_invariant hstep (sound_start audience ttl max) h
  exact ⟨hsound.told, hkept⟩

/-- A key of the sample. -/
def sampleKey : List UInt8 := 4 :: List.replicate 64 0

/-- Libraries that know one signed payload. -/
@[reducible] def sampleLibraries : DeviceLibraries where
  b64url text := [("p", [112]), ("k", sampleKey), ("s", List.replicate 64 1)].lookup text
  b64urlEncode bytes := if bytes = [1] then "n" else "t"
  payload bytes := if bytes = [112] then some ⟨"kb1|s|a", "k", "n", "r", 60⟩ else none
  ecdsaP256Sha256 key message signature :=
    decide (key = sampleKey ∧ message = [112] ∧ signature = List.replicate 64 1)
  sha256 _ := [2]

/-- A nonce is issued, an assertion is checked, and then it spends the nonce. -/
def sampleEvents : List Event := [.issue (some [1]) 0, .check "p.s" 1, .spend 0]

/-- What the broker of the sample has answered. -/
def sampleLog : List Outcome :=
  (run (@next sampleLibraries "r") (start 60 1) sampleEvents).log

omit [DeviceLibraries] in
/-- The assertion of the sample is accepted, and its nonce is good for no other. -/
theorem one_shot_sample : sampleLog.filterMap Outcome.spent = ["n"] ∧
    @OneShot sampleLibraries "r" sampleLog ∧
    Everywhere (@next sampleLibraries "r") (@Kept sampleLibraries "r" 1) (start 60 1)
      sampleEvents := by
  refine ⟨by decide +kernel, @one_shot sampleLibraries "r" 60 1 sampleEvents ⟨?_, ?_, ?_, trivial⟩⟩
  · intro bytes now expiry _ hmem
    cases hmem
  · intro bytes now expiry heq
    cases heq
  · intro bytes now expiry heq
    cases heq

end Kerbridge.DeviceNonces

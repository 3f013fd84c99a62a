import Mathlib.Data.List.Forall2
import Kerbridge.DeviceRequestRule
import Kerbridge.GrantVerbs
import Kerbridge.Runs

/-!
# Requests on one account that overlap

The issuer answers each connection on a thread of its own, and nothing is held
between the lookup a request decides from and the change it makes. A run is any
order of lookups and changes of requests for one account.
-/

namespace Kerbridge.Issuerd

open UnicodeText StoredIdentity DeviceGrants RealmDirectory RealmState Fallible Runs

variable {server : Server}

/-- A request that has decided on a change and not yet made it. -/
structure Waiting where
  verb : Verb
  change : Change

/-- How a request ended. -/
inductive Ended where
  | done (verb : Verb)
  | failed (verb : Verb) (why : VerbError)

/-- The directory, the requests in flight, and how every other one ended. -/
structure State (server : Server) where
  realm : Realm server
  waiting : List Waiting
  log : List Ended

/-- What happens next. -/
inductive Step where
  /-- A request arrives and looks the account up. -/
  | start (verb : Verb) (now : UInt64)
  /-- A waiting request makes its change. -/
  | write (i : ℕ)
  /-- A waiting request never reaches the directory. -/
  | lost (i : ℕ)

/-- The state after a step. -/
def next [UnicodeTables] (cfg : Config) (maxGrants : ℕ) (sid : String) (s : State server) :
    Step → State server
  | .start verb now =>
    match change cfg maxGrants s.realm sid now verb with
    | .error why => { s with log := s.log ++ [.failed verb why] }
    | .ok none => { s with log := s.log ++ [.done verb] }
    | .ok (some c) => { s with waiting := s.waiting ++ [⟨verb, c⟩] }
  | .write i =>
    match s.waiting[i]? with
    | none => s
    | some w =>
      match ldbmodify s.realm w.change with
      | .error why => ⟨s.realm, s.waiting.eraseIdx i, s.log ++ [.failed w.verb why]⟩
      | .ok r => ⟨r, s.waiting.eraseIdx i, s.log ++ [.done w.verb]⟩
  | .lost i =>
    match s.waiting[i]? with
    | none => s
    | some w => { s with
      waiting := s.waiting.eraseIdx i
      log := s.log ++ [.failed w.verb .failed] }

/-- The values the account carries. -/
def values (cfg : Config) (r : Realm server) (sid : String) : List String :=
  (found cfg r sid).flatMap fun e => e.attrs "extensionName"

/-- One grant of a key at most, and no more grant values than the cap. -/
def Within (maxGrants : ℕ) (values : List String) : Prop :=
  (∀ t, (values.filter (own t)).length ≤ 1) ∧
    (values.filter fun m => startsWith m grantPrefix).length ≤ maxGrants

/-- A removal of a key ended well, and no grant for it has since. -/
def Gone (t : String) (log : List Ended) : Prop :=
  ∃ past future, log = past ++ .done (.revoke t) :: future ∧
    ∀ req : GrantRequest, req.thumbprint = t → .done (.grant req) ∉ future

/-- Only grants of one key on the account's object may differ. -/
structure OwnOnly (cfg : Config) (sid t : String) (r : Realm server) (e e' : Entry) : Prop where
  dn : e'.dn = e.dn
  binAttrs : e'.binAttrs = e.binAttrs
  attrs : ∀ attr, attr ≠ "extensionName" → e'.attrs attr = e.attrs attr
  values : (e'.attrs "extensionName").filter (fun v => !own t v) =
    (e.attrs "extensionName").filter fun v => !own t v
  elsewhere : e ∉ found cfg r sid → e' = e

/-- What is asked of a step: the store stays within its bounds, a removed key stays
away, and a request changes only grants of its own key. -/
def Lawful [UnicodeTables] (cfg : Config) (maxGrants : ℕ) (sid : String) (s : State server)
    (step : Step) : Prop :=
  let s' := next cfg maxGrants sid s step
  Within maxGrants (values cfg s'.realm sid) ∧
    (∀ t, Gone t s'.log → ∀ v ∈ values cfg s'.realm sid, own t v = false) ∧
    match step with
    | .write i => ∀ w, s.waiting[i]? = some w →
      List.Forall₂ (OwnOnly cfg sid w.verb.thumbprint s.realm) s.realm.entries s'.realm.entries
    | _ => s'.realm = s.realm

/-- What the lookup of a new grant found still holds when its change is made: there
is no grant of its key and room for one more. A change that repeats a stored value
is refused and need not be asked. -/
def Still (cfg : Config) (maxGrants : ℕ) (sid : String) (s : State server) : Step → Prop
  | .write i => ∀ w, s.waiting[i]? = some w → w.change.delete = [] →
    (∃ v ∈ w.change.add, v ∈ values cfg s.realm sid) ∨
      (∀ v ∈ values cfg s.realm sid, own w.verb.thumbprint v = false) ∧
        ((values cfg s.realm sid).filter fun m => startsWith m grantPrefix).length < maxGrants
  | _ => True

/-- What holds between two steps. -/
structure Sound (cfg : Config) (maxGrants : ℕ) (sid : String) (s : State server) : Prop where
  within : Within maxGrants (values cfg s.realm sid)
  gone : ∀ t, Gone t s.log → ∀ v ∈ values cfg s.realm sid, own t v = false
  /-- A waiting request names the account's object, and changes grants of its own key. -/
  waiting : ∀ w ∈ s.waiting, ∃ e, found cfg s.realm sid = [e] ∧ w.change.dn = e.dn ∧
    ∃ values, w.verb.Fits maxGrants values w.change

/-- An ending that removes nothing tells of no removal. -/
theorem gone_snoc {t : String} {log : List Ended} {o : Ended} (h : Gone t (log ++ [o])) :
    o = .done (.revoke t) ∨
      Gone t log ∧ ∀ req : GrantRequest, req.thumbprint = t → o ≠ .done (.grant req) := by
  obtain ⟨past, future, hlog, hfuture⟩ := h
  cases hf : future.reverse with
  | nil =>
    have hnil : future = [] := List.reverse_eq_nil_iff.mp hf
    subst hnil
    exact Or.inl (List.append_inj' hlog rfl).2 |>.imp (fun h => List.singleton_inj.mp h) id
  | cons last rest =>
    have hfut : future = rest.reverse ++ [last] := by
      rw [← List.reverse_reverse future, hf, List.reverse_cons]
    rw [hfut, ← List.cons_append, ← List.append_assoc] at hlog
    have hparts := List.append_inj' hlog rfl
    have hlast := List.singleton_inj.mp hparts.2
    refine Or.inr ⟨⟨past, rest.reverse, hparts.1, ?_⟩, ?_⟩
    · intro req hreq hmem
      exact hfuture req hreq (by rw [hfut]; exact List.mem_append_left _ hmem)
    · intro req hreq heq
      exact hfuture req hreq (by rw [hfut, ← heq, hlast]; simp)

/-- The values after a change. -/
def Change.apply (c : Change) (values : List String) : List String :=
  values.filter (fun v => !c.delete.contains v) ++ c.add

/-- The account's values are those of its object. -/
theorem values_of_found {cfg : Config} {r : Realm server} {sid : String} {e : Entry}
    (he : found cfg r sid = [e]) : values cfg r sid = e.attrs "extensionName" := by
  simp [values, he]

/-- A change of one key's grants leaves every other value as it was. -/
theorem apply_foreign {verb : Verb} {maxGrants : ℕ} {old values : List String} {c : Change}
    (h : verb.Fits maxGrants old c) :
    (c.apply values).filter (fun v => !own verb.thumbprint v) =
      values.filter fun v => !own verb.thumbprint v := by
  have hadd : c.add.filter (fun v => !own verb.thumbprint v) = [] := by
    rw [List.filter_eq_nil_iff]
    intro v hv
    simp [h.adds v hv]
  rw [Change.apply, List.filter_append, hadd, List.append_nil, List.filter_filter]
  refine List.filter_congr ?_
  intro v _
  by_cases hown : own verb.thumbprint v = true
  · simp [hown]
  · have hkeep : v ∉ c.delete := fun hv => hown (h.deletes v hv).1
    simp [hown, hkeep]

/-- A change of one key's grants leaves the grants of another key as they were. -/
theorem apply_other {verb : Verb} {maxGrants : ℕ} {old values : List String} {c : Change}
    (h : verb.Fits maxGrants old c) {t : String} (ht : t ≠ verb.thumbprint) :
    (c.apply values).filter (own t) = values.filter (own t) := by
  have hsub : ∀ vs : List String, vs.filter (own t) =
      (vs.filter fun v => !own verb.thumbprint v).filter (own t) := by
    intro vs
    rw [List.filter_filter]
    refine List.filter_congr ?_
    intro v _
    by_cases hown : own t v = true
    · have hnot : ¬ own verb.thumbprint v = true := fun hv => ht (own_unique hown hv)
      simp [hown, hnot]
    · simp [hown]
  rw [hsub (c.apply values), apply_foreign h, ← hsub values]

/-- Where a key had one grant at most, deleting one leaves none but what is added. -/
theorem apply_own {verb : Verb} {maxGrants : ℕ} {old values : List String} {c : Change}
    (h : verb.Fits maxGrants old c) (hdelete : c.delete ≠ [])
    (hthere : ∀ v ∈ c.delete, v ∈ values)
    (hone : (values.filter (own verb.thumbprint)).length ≤ 1) :
    (c.apply values).filter (own verb.thumbprint) = c.add := by
  have hadd : c.add.filter (own verb.thumbprint) = c.add := by
    rw [List.filter_eq_self]
    exact h.adds
  obtain ⟨d, hd⟩ := List.exists_mem_of_ne_nil _ hdelete
  have hmem : d ∈ values.filter (own verb.thumbprint) :=
    List.mem_filter.mpr ⟨hthere d hd, (h.deletes d hd).1⟩
  have hall : values.filter (own verb.thumbprint) = [d] := by
    cases hf : values.filter (own verb.thumbprint) with
    | nil => rw [hf] at hmem; cases hmem
    | cons v vs =>
      cases vs with
      | nil => rw [hf] at hmem; rw [List.mem_singleton.mp hmem]
      | cons v' vs => rw [hf] at hone; simp at hone
  have hrest : (values.filter fun v => !c.delete.contains v).filter (own verb.thumbprint) = [] := by
    rw [List.filter_eq_nil_iff]
    intro v hv hown
    have hv' := List.mem_filter.mp hv
    have hvd : v ∈ values.filter (own verb.thumbprint) := List.mem_filter.mpr ⟨hv'.1, hown⟩
    rw [hall, List.mem_singleton] at hvd
    subst hvd
    simp [hd] at hv'
  rw [Change.apply, List.filter_append, hrest, hadd, List.nil_append]

/-- Deleting a grant makes room for what is added. -/
theorem apply_room {verb : Verb} {maxGrants : ℕ} {old values : List String} {c : Change}
    (h : verb.Fits maxGrants old c) (hdelete : c.delete ≠ [])
    (hthere : ∀ v ∈ c.delete, v ∈ values) :
    ((c.apply values).filter fun m => startsWith m grantPrefix).length ≤
      (values.filter fun m => startsWith m grantPrefix).length := by
  obtain ⟨d, hd⟩ := List.exists_mem_of_ne_nil _ hdelete
  have hkeep : (values.filter fun v => !c.delete.contains v).filter
      (fun m => startsWith m grantPrefix) =
      (values.filter fun m => startsWith m grantPrefix).filter fun v => !c.delete.contains v := by
    rw [List.filter_filter, List.filter_filter]
    refine List.filter_congr ?_
    intro v _
    exact Bool.and_comm _ _
  have hless : ((values.filter fun m => startsWith m grantPrefix).filter
      fun v => !c.delete.contains v).length <
      (values.filter fun m => startsWith m grantPrefix).length := by
    rw [List.length_filter_lt_length_iff_exists]
    refine ⟨d, List.mem_filter.mpr ⟨hthere d hd, startsWith_of_own (h.deletes d hd).1⟩, ?_⟩
    simp [hd]
  have hadd := List.length_filter_le (fun m => startsWith m grantPrefix) c.add
  have hfew := h.few
  rw [Change.apply, List.filter_append, List.length_append, hkeep]
  omega

/-- A new grant adds one value to those of its key and to those that count. -/
theorem apply_fresh {verb : Verb} {maxGrants : ℕ} {old : List String} {c : Change}
    (h : verb.Fits maxGrants old c) (hdelete : c.delete = []) (values : List String) :
    ((c.apply values).filter (own verb.thumbprint)).length =
      (values.filter (own verb.thumbprint)).length + 1 ∧
    ((c.apply values).filter fun m => startsWith m grantPrefix).length =
      (values.filter fun m => startsWith m grantPrefix).length + 1 := by
  have hadd : c.add.filter (own verb.thumbprint) = c.add := by
    rw [List.filter_eq_self]
    exact h.adds
  have htag : (c.add.filter fun m => startsWith m grantPrefix) = c.add := by
    rw [List.filter_eq_self]
    intro v hv
    exact startsWith_of_own (h.adds v hv)
  have hlen : c.add.length = 1 := by
    have hpos := List.length_pos_iff.mpr (h.fresh hdelete).2.1
    have hfew := h.few
    omega
  have hkeep : values.filter (fun v => !c.delete.contains v) = values := by
    simp [hdelete]
  refine ⟨?_, ?_⟩
  · rw [Change.apply, List.filter_append, List.length_append, hkeep, hadd, hlen]
  · rw [Change.apply, List.filter_append, List.length_append, hkeep, htag, hlen]

/-- A change of the account's object touches only grants of its own key. -/
theorem ownOnly_modify {cfg : Config} {r : Realm server} {sid : String} {e : Entry} {verb : Verb}
    {maxGrants : ℕ} {old : List String} {c : Change} (he : found cfg r sid = [e])
    (h : verb.Fits maxGrants old c) :
    List.Forall₂ (OwnOnly cfg sid verb.thumbprint r) r.entries
      (modify r e.dn c.delete c.add).entries := by
  have hmem : e ∈ r.entries := by
    have hone : e ∈ found cfg r sid := by rw [he]; exact List.mem_singleton_self e
    exact (List.mem_filter.mp hone).1
  rw [modify, List.forall₂_map_right_iff, List.forall₂_same]
  intro o ho
  by_cases hdn : server.sameDn o.dn e.dn = true
  · obtain rfl := r.eq_of_sameDn ho hmem hdn
    rw [if_pos hdn]
    refine ⟨rfl, rfl, ?_, ?_, ?_⟩
    · intro attr hattr
      simp [changed, hattr]
    · exact apply_foreign h
    · intro hnot
      exact absurd (by rw [he]; exact List.mem_singleton_self o) hnot
  · rw [if_neg hdn]
    exact ⟨rfl, rfl, fun _ _ => rfl, rfl, fun _ => rfl⟩

/-- The values after a change that is made. -/
theorem values_ldbmodify {cfg : Config} {r r' : Realm server} {sid : String} {e : Entry}
    {c : Change} (he : found cfg r sid = [e]) (hdn : c.dn = e.dn) (h : ldbmodify r c = .ok r') :
    values cfg r' sid = c.apply (values cfg r sid) := by
  obtain ⟨_, _, _, hfound⟩ := ldbmodify_ok he hdn h
  rw [values_of_found hfound, values_of_found he, changed_values]
  rfl

/-- Within its bounds, the store stays there exactly when what a new grant found still
holds. -/
theorem within_apply {maxGrants : ℕ} {verb : Verb} {old values : List String} {c : Change}
    (h : verb.Fits maxGrants old c) (hthere : ∀ v ∈ c.delete, v ∈ values)
    (hw : Within maxGrants values) :
    Within maxGrants (c.apply values) ↔ (c.delete = [] →
      (∀ v ∈ values, own verb.thumbprint v = false) ∧
        (values.filter fun m => startsWith m grantPrefix).length < maxGrants) := by
  have hother : ∀ t, t ≠ verb.thumbprint → ((c.apply values).filter (own t)).length ≤ 1 := by
    intro t ht
    rw [apply_other h ht]
    exact hw.1 t
  by_cases hdelete : c.delete = []
  · obtain ⟨hown, hcount⟩ := apply_fresh h hdelete values
    constructor
    · intro hafter _
      have hkey := hafter.1 verb.thumbprint
      have hcap := hafter.2
      refine ⟨?_, by omega⟩
      have hnil : values.filter (own verb.thumbprint) = [] := List.length_eq_zero_iff.mp (by omega)
      intro v hv
      simpa using List.filter_eq_nil_iff.mp hnil v hv
    · intro hstill
      obtain ⟨hnone, hroom⟩ := hstill hdelete
      have hnil : values.filter (own verb.thumbprint) = [] := by
        rw [List.filter_eq_nil_iff]
        intro v hv
        simp [hnone v hv]
      refine ⟨?_, by omega⟩
      intro t
      by_cases ht : t = verb.thumbprint
      · rw [ht, hown, hnil]
        exact le_refl 1
      · exact hother t ht
  · refine ⟨fun _ hnil => absurd hnil hdelete, fun _ => ⟨?_, ?_⟩⟩
    · intro t
      by_cases ht : t = verb.thumbprint
      · rw [ht, apply_own h hdelete hthere (hw.1 _)]
        exact h.few
      · exact hother t ht
    · exact (apply_room h hdelete hthere).trans hw.2

/-- A key that was removed is not among the values after a change, unless the change
is a grant for it. -/
theorem gone_apply {maxGrants : ℕ} {verb : Verb} {old values : List String} {c : Change}
    (h : verb.Fits maxGrants old c) (hthere : ∀ v ∈ c.delete, v ∈ values)
    (hw : Within maxGrants values) {t : String} (hnot : ∀ req, verb = .grant req → req.thumbprint ≠ t)
    (hgone : verb = .revoke t ∨ ∀ v ∈ values, own t v = false) :
    ∀ v ∈ c.apply values, own t v = false := by
  have hnil : (c.apply values).filter (own t) = [] := by
    by_cases ht : t = verb.thumbprint
    · have hdelete : c.delete ≠ [] := by
        intro hnone
        obtain ⟨⟨req, hreq⟩, _⟩ := h.fresh hnone
        subst hreq
        exact hnot req rfl ht.symm
      rcases hgone with hrevoke | hnone
      · rw [ht, apply_own h hdelete hthere (hw.1 _)]
        exact (h.removes t hrevoke).2
      · obtain ⟨d, hd⟩ := List.exists_mem_of_ne_nil _ hdelete
        have hd' := hnone d (hthere d hd)
        rw [ht, (h.deletes d hd).1] at hd'
        cases hd'
    · rw [apply_other h ht]
      rcases hgone with hrevoke | hnone
      · rw [hrevoke] at ht
        exact absurd rfl ht
      · rw [List.filter_eq_nil_iff]
        intro v hv
        simp [hnone v hv]
  intro v hv
  simpa using List.filter_eq_nil_iff.mp hnil v hv

/-- An ending that is no removal and a store that did not change keep removed keys away. -/
theorem gone_of_failed {s : State server} {cfg : Config} {maxGrants : ℕ} {sid : String}
    (h : Sound cfg maxGrants sid s) {verb : Verb} {why : VerbError} :
    ∀ t, Gone t (s.log ++ [.failed verb why]) → ∀ v ∈ values cfg s.realm sid, own t v = false := by
  intro t hg
  rcases gone_snoc hg with heq | ⟨hlog, _⟩
  · cases heq
  · exact h.gone t hlog

/-- A step that begins a request. -/
theorem sound_start [UnicodeTables] {cfg : Config} {maxGrants : ℕ} {sid : String}
    {s : State server} (h : Sound cfg maxGrants sid s) (verb : Verb) (now : UInt64) :
    Lawful cfg maxGrants sid s (.start verb now) ∧
      Sound cfg maxGrants sid (next cfg maxGrants sid s (.start verb now)) := by
  cases hc : change cfg maxGrants s.realm sid now verb with
  | error why =>
    simp only [Lawful, next, hc]
    exact ⟨⟨h.within, gone_of_failed h, trivial⟩, h.within, gone_of_failed h, h.waiting⟩
  | ok c =>
    obtain ⟨e, he, hsome, hnone⟩ := change_ok hc
    cases c with
    | none =>
      have hgone : ∀ t, Gone t (s.log ++ [.done verb]) →
          ∀ v ∈ values cfg s.realm sid, own t v = false := by
        intro t hg
        rcases gone_snoc hg with heq | ⟨hlog, _⟩
        · cases heq
          rw [values_of_found he]
          exact (hnone rfl).2 t rfl
        · exact h.gone t hlog
      simp only [Lawful, next, hc]
      exact ⟨⟨h.within, hgone, trivial⟩, h.within, hgone, h.waiting⟩
    | some c =>
      obtain ⟨hdn, hfits⟩ := hsome c rfl
      simp only [Lawful, next, hc]
      refine ⟨⟨h.within, h.gone, trivial⟩, h.within, h.gone, ?_⟩
      intro w hw
      rcases List.mem_append.mp hw with hold | hlast
      · exact h.waiting w hold
      · obtain rfl := List.mem_singleton.mp hlast
        exact ⟨e, he, hdn, _, hfits⟩

/-- A step that loses a request. -/
theorem sound_lost [UnicodeTables] {cfg : Config} {maxGrants : ℕ} {sid : String}
    {s : State server} (h : Sound cfg maxGrants sid s) (i : ℕ) :
    Lawful cfg maxGrants sid s (.lost i) ∧
      Sound cfg maxGrants sid (next cfg maxGrants sid s (.lost i)) := by
  cases hw : s.waiting[i]? with
  | none =>
    simp only [Lawful, next, hw]
    exact ⟨⟨h.within, h.gone, trivial⟩, h⟩
  | some w =>
    simp only [Lawful, next, hw]
    exact ⟨⟨h.within, gone_of_failed h, trivial⟩, h.within, gone_of_failed h,
      fun w' hw' => h.waiting w' (List.mem_of_mem_eraseIdx hw')⟩

/-- A step that makes a change is lawful exactly when what a new grant found still
holds, and then keeps the invariant. -/
theorem sound_write [UnicodeTables] {cfg : Config} {maxGrants : ℕ} {sid : String}
    {s : State server} (h : Sound cfg maxGrants sid s) (i : ℕ) :
    (Lawful cfg maxGrants sid s (.write i) ↔ Still cfg maxGrants sid s (.write i)) ∧
      (Still cfg maxGrants sid s (.write i) →
        Sound cfg maxGrants sid (next cfg maxGrants sid s (.write i))) := by
  cases hi : s.waiting[i]? with
  | none =>
    have hnone : ∀ w, s.waiting[i]? ≠ some w := by
      intro w hw
      rw [hi] at hw
      cases hw
    have hstill : Still cfg maxGrants sid s (.write i) := fun w hw => absurd hw (hnone w)
    have hnext : next cfg maxGrants sid s (.write i) = s := by simp only [next, hi]
    have hlawful : Lawful cfg maxGrants sid s (.write i) := by
      unfold Lawful
      rw [hnext]
      exact ⟨h.within, h.gone, fun w hw => absurd hw (hnone w)⟩
    exact ⟨⟨fun _ => hstill, fun _ => hlawful⟩, fun _ => by rw [hnext]; exact h⟩
  | some w =>
    obtain ⟨e, he, hdn, old, hfits⟩ := h.waiting w (List.mem_of_getElem? hi)
    have hrest : ∀ w' ∈ s.waiting.eraseIdx i, w' ∈ s.waiting :=
      fun w' hw' => List.mem_of_mem_eraseIdx hw'
    cases hm : ldbmodify s.realm w.change with
    | error why =>
      have hsame : List.Forall₂ (OwnOnly cfg sid w.verb.thumbprint s.realm) s.realm.entries
          s.realm.entries := by
        rw [List.forall₂_same]
        intro o _
        exact ⟨rfl, rfl, fun _ _ => rfl, rfl, fun _ => rfl⟩
      have hstill : Still cfg maxGrants sid s (.write i) := by
        intro w' hw' hdelete
        rw [hi] at hw'
        obtain rfl := Option.some.inj hw'
        left
        by_contra hnone
        have hmade := ldbmodify_add he hdn hdelete fun v hv hin =>
          hnone ⟨v, hv, by rw [values_of_found he]; exact hin⟩
        rw [hm] at hmade
        cases hmade
      have hgone : ∀ t, Gone t (s.log ++ [.failed w.verb why]) → ∀ v ∈ values cfg s.realm sid,
          own t v = false := gone_of_failed h
      refine ⟨⟨fun _ => hstill, fun _ => ?_⟩, fun _ => ?_⟩
      · simp only [Lawful, next, hi, hm]
        refine ⟨h.within, hgone, ?_⟩
        intro w' hw'
        obtain rfl := Option.some.inj hw'
        exact hsame
      · simp only [next, hi, hm]
        exact ⟨h.within, hgone, fun w' hw' => h.waiting w' (hrest w' hw')⟩
    | ok r =>
      obtain ⟨hr, hthere, hnew, hfound⟩ := ldbmodify_ok he hdn hm
      have hvalues := values_ldbmodify he hdn hm
      have hthere : ∀ v ∈ w.change.delete, v ∈ values cfg s.realm sid := by
        rw [values_of_found he]
        exact hthere
      have hiff := within_apply hfits hthere h.within
      have hgone : ∀ t, Gone t (s.log ++ [.done w.verb]) →
          ∀ v ∈ values cfg r sid, own t v = false := by
        intro t hg
        rw [hvalues]
        rcases gone_snoc hg with heq | ⟨hlog, hnot⟩
        · have hverb : w.verb = .revoke t := Ended.done.inj heq
          exact gone_apply hfits hthere h.within (by simp [hverb]) (Or.inl hverb)
        · refine gone_apply hfits hthere h.within ?_ (Or.inr (h.gone t hlog))
          intro req hreq ht
          exact hnot req ht (by rw [hreq])
      have hstill : Still cfg maxGrants sid s (.write i) ↔
          Within maxGrants (w.change.apply (values cfg s.realm sid)) := by
        rw [hiff]
        constructor
        · intro hs hdelete
          rcases hs w hi hdelete with ⟨v, hv, hin⟩ | hok
          · rw [values_of_found he] at hin
            have hgone := hnew v hv hin
            rw [hdelete] at hgone
            cases hgone
          · exact hok
        · intro hok w' hw' hdelete
          rw [hi] at hw'
          obtain rfl := Option.some.inj hw'
          exact Or.inr (hok hdelete)
      have hown := ownOnly_modify he hfits
      rw [← hr] at hown
      refine ⟨⟨fun hl => ?_, fun hs => ?_⟩, fun hs => ?_⟩
      · simp only [Lawful, next, hi, hm] at hl
        rw [hstill, ← hvalues]
        exact hl.1
      · simp only [Lawful, next, hi, hm]
        refine ⟨by rw [hvalues]; exact hstill.mp hs, hgone, ?_⟩
        intro w' hw'
        obtain rfl := Option.some.inj hw'
        exact hown
      · simp only [next, hi, hm]
        refine ⟨by rw [hvalues]; exact hstill.mp hs, hgone, ?_⟩
        intro w' hw'
        obtain ⟨e', he', hdn', hfits'⟩ := h.waiting w' (hrest w' hw')
        rw [he] at he'
        obtain rfl := List.singleton_inj.mp he'
        exact ⟨_, hfound, hdn', hfits'⟩

/-- In every order of lookups and changes from a store within its bounds, every step
is lawful exactly when each new grant that is stored still finds what its lookup found. -/
theorem grants_lawful_iff [UnicodeTables] {cfg : Config} {maxGrants : ℕ} {sid : String}
    {r : Realm server} {steps : List Step} (h : Within maxGrants (values cfg r sid)) :
    Everywhere (next cfg maxGrants sid) (Lawful cfg maxGrants sid) ⟨r, [], []⟩ steps ↔
      Everywhere (next cfg maxGrants sid) (Still cfg maxGrants sid) ⟨r, [], []⟩ steps := by
  have hinit : Sound cfg maxGrants sid (⟨r, [], []⟩ : State server) := by
    refine ⟨h, ?_, ?_⟩
    · rintro t ⟨past, future, hlog, _⟩
      cases past with
      | nil => cases hlog
      | cons o past => cases hlog
    · intro w hw
      cases hw
  refine everywhere_iff_of_invariant ?_ hinit
  intro s step hs
  cases step with
  | start verb now =>
    obtain ⟨hlawful, hnext⟩ := sound_start hs verb now
    exact ⟨⟨fun _ => trivial, fun _ => hlawful⟩, fun _ => hnext⟩
  | write i => exact sound_write hs i
  | lost i =>
    obtain ⟨hlawful, hnext⟩ := sound_lost hs i
    exact ⟨⟨fun _ => trivial, fun _ => hlawful⟩, fun _ => hnext⟩

/-- A live account that carries no grant. -/
def racedEntry : Entry :=
  BrokerDirectory.listed "CN=a,O=x" [[1, 1, 0, 0, 0, 0, 0, 5, 18, 0, 0, 0]]
    [("objectClass", ["user"]), ("sAMAccountName", ["a"]), ("userAccountControl", ["512"]),
      ("msDS-ExternalDirectoryObjectId", ["kb1|s|a"])]

/-- The directory of that account. -/
def racedRealm : Realm BrokerDirectory.plainServer where
  entries := [racedEntry]
  distinct := List.pairwise_singleton _ _
  backlinks := by
    intro e he g hg
    rw [List.mem_singleton.mp he] at hg
    simp [racedEntry, BrokerDirectory.listed, List.lookup_cons] at hg

/-- The issuer of that directory. -/
def racedConfig : Config := ⟨"O=x", "O=x"⟩

/-- The key of both requests. -/
def racedKey : String := "WiPHG1JHirH6KsBUh4J5zQXiD7BtOzpQkfJTbcxfO6U"

/-- A request to record a grant of that key. -/
def racedRequest (label : String) : Verb := .grant ⟨label, "es256", racedKey, 9⟩

/-- Where the requests on the account lead, with room for one grant. -/
noncomputable def raced (steps : List Step) : State BrokerDirectory.plainServer :=
  run (@next _ asciiTables racedConfig 1 "S-1-5-18") ⟨racedRealm, [], []⟩ steps

/-- The account carries nothing at first. -/
theorem values_raced : values racedConfig racedRealm "S-1-5-18" = [] := by decide

/-- One grant alone is recorded lawfully. -/
theorem grants_lawful_alone :
    Everywhere (@next _ asciiTables racedConfig 1 "S-1-5-18")
      (@Lawful _ asciiTables racedConfig 1 "S-1-5-18") ⟨racedRealm, [], []⟩
      [.start (racedRequest "x") 1, .write 0] := by
  let _ := asciiTables
  have hwithin : Within 1 (values racedConfig racedRealm "S-1-5-18") := by
    rw [values_raced]
    exact ⟨fun t => Nat.zero_le 1, Nat.zero_le 1⟩
  refine (@grants_lawful_iff _ asciiTables racedConfig 1 "S-1-5-18" racedRealm _ hwithin).mpr
    ⟨trivial, ?_, trivial⟩
  intro w _ _
  have hnone : values racedConfig (next racedConfig 1 "S-1-5-18" ⟨racedRealm, [], []⟩
      (.start (racedRequest "x") 1)).realm "S-1-5-18" = [] := by decide +kernel
  rw [hnone]
  exact Or.inr ⟨by simp, by simp⟩

/-- Two grants of one key that look the account up before either is stored are both
stored: the key has two grants, and the account more than it has room for. -/
theorem grants_unlawful_overlap :
    Within 1 (values racedConfig racedRealm "S-1-5-18") ∧
      ¬ Within 1 (values racedConfig (raced [.start (racedRequest "x") 1,
        .start (racedRequest "y") 1, .write 0, .write 0]).realm "S-1-5-18") := by
  constructor
  · rw [values_raced]
    exact ⟨fun t => Nat.zero_le 1, Nat.zero_le 1⟩
  · intro h
    have hkey := h.1 racedKey
    revert hkey
    decide +kernel

end Kerbridge.Issuerd

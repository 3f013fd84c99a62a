import Kerbridge.EntraShadow
import Kerbridge.KeyedFold
import Kerbridge.Runs

/-!
# Delta reads against a full read

A tenant as its directory service holds it, and the contract its delta reads are
given under: what changed since the last read is reported with its current
value, and a cleared property is reported as null. The shadow merged from delta
reads is compared with one freshly filled from the tenant it ends at.
-/

namespace Kerbridge.EntraDelta

open UnicodeText DirectorySource EntraShadow KeyedFold Runs Std

/-- A property as an entry carries it. -/
inductive Field (α : Type) where
  | absent
  | null
  | value (a : α)
  deriving DecidableEq

/-- What the decoder makes of a property: an absent one and a null one are both
no value. -/
def Field.decode {α : Type} : Field α → Option α
  | .absent => none
  | .null => none
  | .value a => some a

/-- A property carried with its current value, null when there is none. -/
def Field.carry {α : Type} : Option α → Field α
  | none => .null
  | some a => .value a

/-- One users entry before decoding. -/
structure WireUser where
  id : String
  displayName : Field String := .absent
  upn : Field String := .absent
  mail : Field String := .absent
  otherMails : Field (List String) := .absent
  accountEnabled : Field Bool := .absent
  userType : Field String := .absent
  removed : Bool := false

/-- One groups entry before decoding. -/
structure WireGroup where
  id : String
  displayName : Field String := .absent
  membersDelta : Option (List RawMember) := none
  removed : Bool := false

/-- A users entry as the decoder hands it over. -/
def WireUser.decode (e : WireUser) : RawUser where
  id := e.id
  displayName := e.displayName.decode
  upn := e.upn.decode
  mail := e.mail.decode
  otherMails := e.otherMails.decode
  accountEnabled := e.accountEnabled.decode
  userType := e.userType.decode
  removed := e.removed

/-- A groups entry as the decoder hands it over. -/
def WireGroup.decode (e : WireGroup) : RawGroup where
  id := e.id
  displayName := e.displayName.decode
  membersDelta := e.membersDelta
  removed := e.removed

/-- A group of the tenant. -/
structure TenantGroup where
  displayName : Option String := none
  /-- The ids of the members. -/
  members : List String := []

/-- The tenant at one moment. A user is its property values, none where null. -/
structure Tenant where
  users : ExtTreeMap String ShadowUser := {}
  groups : ExtTreeMap String TenantGroup := {}

/-- The members of a group, none when there is no such group. -/
def Tenant.members (t : Tenant) (x : String) : List String :=
  (t.groups[x]?.map TenantGroup.members).getD []

section Contract

variable {τ ε α : Type}

/-- Which objects the entries of one stream name, between two tenants. -/
structure Presence (before after : ExtTreeMap String τ) (entries : List ε) (id : ε → String)
    (removed : ε → Bool) : Prop where
  /-- An entry that is no removal is about an object of the tenant. -/
  present : ∀ e ∈ entries, removed e = false → id e ∈ after
  /-- A removal is about no object of the tenant. -/
  absent : ∀ e ∈ entries, removed e = true → id e ∉ after
  /-- Every created object is reported. -/
  created : ∀ x ∈ after, x ∉ before → ∃ e ∈ entries, id e = x
  /-- Every removed object is reported. -/
  left : ∀ x ∈ before, x ∉ after → ∃ e ∈ entries, id e = x

/-- One property over one stream: it is carried with its current value or not at
all, and it is carried where it changed. -/
def Reported (before after : ExtTreeMap String τ) (entries : List ε) (id : ε → String)
    (get : τ → Option α) (field : ε → Field α) : Prop :=
  ∀ (x : String) r, after[x]? = some r →
    (∀ e ∈ entries, id e = x → field e = .absent ∨ field e = .carry (get r)) ∧
      ((before[x]?.bind get) ≠ get r → ∃ e ∈ entries, id e = x ∧ field e = .carry (get r))

/-- No object that stays loses the value of the property. -/
def Uncleared (before after : ExtTreeMap String τ) (get : τ → Option α) : Prop :=
  ∀ (x : String) r r', before[x]? = some r → after[x]? = some r' → get r' = none → get r = none

/-- The membership edges over both streams. `odataType` is the class of the
object an id names. An edge lost to the removal of a user may be left out of the
groups stream: the users stream reports the removal. -/
structure EdgesReported (odataType : String → String) (before after : Tenant)
    (users : List WireUser) (groups : List WireGroup) : Prop where
  /-- An added edge is one of the tenant, with its member's class. -/
  added : ∀ e ∈ groups, ∀ m ∈ e.membersDelta.getD [], m.removed = false →
    m.id ∈ after.members e.id ∧ m.odataType = odataType m.id
  /-- A removed edge is none of the tenant. -/
  dropped : ∀ e ∈ groups, ∀ m ∈ e.membersDelta.getD [], m.removed = true →
    m.id ∉ after.members e.id
  /-- Every new edge is reported. -/
  gained : ∀ x, ∀ m ∈ after.members x, m ∉ before.members x →
    ∃ e ∈ groups, e.id = x ∧ ∃ d ∈ e.membersDelta.getD [], d.id = m ∧ d.removed = false
  /-- Every edge that is gone from a group that stays is reported. -/
  lost : ∀ x ∈ after.groups, ∀ m ∈ before.members x, m ∉ after.members x →
    (m ∈ before.users ∧ m ∉ after.users) ∨
      ∃ e ∈ groups, e.id = x ∧ ∃ d ∈ e.membersDelta.getD [], d.id = m ∧ d.removed = true
  /-- A removed user is on no edge. -/
  scrubbed : ∀ e ∈ users, e.removed = true → ∀ x, e.id ∉ after.members x

/-- One read of both streams between two tenants. A full read is the one from
the empty tenant. -/
structure DeltaRead (odataType : String → String) (before after : Tenant)
    (us : List WireUser) (gs : List WireGroup) : Prop where
  users : Presence before.users after.users us WireUser.id WireUser.removed
  displayName :
    Reported before.users after.users us WireUser.id ShadowUser.displayName WireUser.displayName
  upn : Reported before.users after.users us WireUser.id ShadowUser.upn WireUser.upn
  mail : Reported before.users after.users us WireUser.id ShadowUser.mail WireUser.mail
  otherMails :
    Reported before.users after.users us WireUser.id ShadowUser.otherMails WireUser.otherMails
  accountEnabled : Reported before.users after.users us WireUser.id ShadowUser.accountEnabled
    WireUser.accountEnabled
  userType : Reported before.users after.users us WireUser.id ShadowUser.userType WireUser.userType
  groups : Presence before.groups after.groups gs WireGroup.id WireGroup.removed
  groupName : Reported before.groups after.groups gs WireGroup.id TenantGroup.displayName
    WireGroup.displayName
  edges : EdgesReported odataType before after us gs

end Contract

/-- No object that stays loses the value of a property. -/
structure NothingCleared (before after : Tenant) : Prop where
  displayName : Uncleared before.users after.users ShadowUser.displayName
  upn : Uncleared before.users after.users ShadowUser.upn
  mail : Uncleared before.users after.users ShadowUser.mail
  otherMails : Uncleared before.users after.users ShadowUser.otherMails
  accountEnabled : Uncleared before.users after.users ShadowUser.accountEnabled
  userType : Uncleared before.users after.users ShadowUser.userType
  groupName : Uncleared before.groups after.groups TenantGroup.displayName

/-- The edges of a record to one id. -/
def edgesAt (members : List Member) (k : String) : List Member := members.filter (·.id = k)

/-- The edge to an id, as the shadow holds it. -/
def edgeTo (odataType : String → String) (k : String) : Member :=
  ⟨MemberKind.fromOdata (odataType k), k⟩

/-- A shadow group that holds exactly the edges of a list of ids, each once. -/
def HoldsEdges (odataType : String → String) (members : List Member) (ids : String → Prop)
    [DecidablePred ids] : Prop :=
  ∀ k, edgesAt members k = if ids k then [edgeTo odataType k] else []

/-- A shadow group that agrees with a group of the tenant. -/
structure GroupMatches (odataType : String → String) (g : ShadowGroup) (t : TenantGroup) :
    Prop where
  displayName : g.displayName = t.displayName
  members : HoldsEdges odataType g.members (· ∈ t.members)

/-- A shadow that agrees with the tenant. -/
structure Represents (odataType : String → String) (s : Shadow) (t : Tenant) : Prop where
  users : ∀ x : String, s.users[x]? = t.users[x]?
  groups : ∀ x : String, Option.Rel (GroupMatches odataType) s.groups[x]? t.groups[x]?

/-- A carried property is decoded to its value. -/
@[simp] theorem Field.decode_carry {α : Type} (current : Option α) :
    (Field.carry current).decode = current := by
  cases current <;> rfl

/-- A property patched by the entries of a stream ends at its current value. -/
theorem property_reported {τ ε ρ α : Type} {before after : ExtTreeMap String τ}
    {entries : List ε} {id : ε → String} {get : τ → Option α} {field : ε → Field α}
    (hreported : Reported before after entries id get field) (huncleared : Uncleared before after get)
    {x : String} {r : τ} (hr : after[x]? = some r) {patch : ρ → ε → ρ} {held : ρ → Option α}
    (hpatch : ∀ u e, held (patch u e) = ((field e).decode <|> held u)) {start : ρ}
    (hstart : held start = before[x]?.bind get) :
    held ((entries.filter fun e => id e = x).foldl patch start) = get r := by
  obtain ⟨hagree, hchanged⟩ := hreported x r hr
  apply property_foldl hpatch
  · intro e he
    obtain ⟨hmem, hid⟩ := List.mem_filter.mp he
    rcases hagree e hmem (of_decide_eq_true hid) with h | h
    · left
      rw [h]
      rfl
    · right
      rw [h, Field.decode_carry]
  · by_cases hsame : before[x]?.bind get = get r
    · left
      rw [hstart, hsame]
    · right
      constructor
      · intro hnone
        apply hsame
        cases hb : before[x]? with
        | none => rw [hnone, Option.bind_none]
        | some r₀ => rw [Option.bind_some, huncleared x r₀ r hb hr hnone, hnone]
      · obtain ⟨e, hmem, hid, hcarry⟩ := hchanged hsame
        refine ⟨e, List.mem_filter.mpr ⟨hmem, decide_eq_true hid⟩, ?_⟩
        rw [hcarry, Field.decode_carry]

/-- Membership in a map, read off its lookup. -/
theorem mem_of_getElem? {τ : Type} {m : ExtTreeMap String τ} {x : String} {r : τ}
    (h : m[x]? = some r) : x ∈ m := by
  rw [ExtTreeMap.mem_iff_isSome_getElem?, h]
  rfl

/-- An object that is gone has no record after the entries about it. -/
theorem Presence.foldl_gone {τ ε ρ : Type} {before after : ExtTreeMap String τ} {entries : List ε}
    {id : ε → String} {removed : ε → Bool} (h : Presence before after entries id removed)
    {x : String} (hx : x ∉ after) {patch : ρ → ε → ρ} {default : ρ} {r : Option ρ}
    (hr : r = none ∨ x ∈ before) :
    (entries.filter fun e => id e = x).foldl (updateAt removed patch default) r = none := by
  apply foldl_updateAt_gone
  · intro e he
    obtain ⟨hmem, hid⟩ := List.mem_filter.mp he
    by_contra hremoved
    have hin := h.present e hmem (by simpa using hremoved)
    rw [of_decide_eq_true hid] at hin
    exact hx hin
  · rcases hr with hr | hb
    · exact .inl hr
    · right
      obtain ⟨e, hmem, hid⟩ := h.left x hb hx
      exact List.ne_nil_of_mem (List.mem_filter.mpr ⟨hmem, decide_eq_true hid⟩)

/-- An object of the tenant has a record patched by every entry about it. -/
theorem Presence.foldl_kept {τ ε ρ : Type} {before after : ExtTreeMap String τ} {entries : List ε}
    {id : ε → String} {removed : ε → Bool} (h : Presence before after entries id removed)
    {x : String} (hx : x ∈ after) {patch : ρ → ε → ρ} {default : ρ} {r : Option ρ}
    (hr : r ≠ none ∨ x ∉ before) :
    (entries.filter fun e => id e = x).foldl (updateAt removed patch default) r =
      some ((entries.filter fun e => id e = x).foldl patch (r.getD default)) := by
  apply foldl_updateAt_kept
  · intro e he
    obtain ⟨hmem, hid⟩ := List.mem_filter.mp he
    by_contra hremoved
    have hgone := h.absent e hmem (by simpa using hremoved)
    rw [of_decide_eq_true hid] at hgone
    exact hgone hx
  · rcases hr with hr | hb
    · exact .inl hr
    · right
      obtain ⟨e, hmem, hid⟩ := h.created x hx hb
      exact List.ne_nil_of_mem (List.mem_filter.mpr ⟨hmem, decide_eq_true hid⟩)

/-- A removal drops one user, and any other entry patches one. -/
theorem applyUser_users (s : Shadow) (e : RawUser) (k : String) :
    (s.applyUser e).users[k]? =
      if e.id = k then updateAt RawUser.removed ShadowUser.patch {} s.users[k]? e
      else s.users[k]? := by
  unfold Shadow.applyUser
  by_cases hr : e.removed = true
  · by_cases hk : e.id = k
    · simp [hr, hk, updateAt]
    · simp [hr, hk, ExtTreeMap.getElem?_erase]
  · by_cases hk : e.id = k
    · subst hk
      simp [hr, updateAt]
    · simp [hr, hk, ExtTreeMap.getElem?_alter]

/-- The users stream brings the users of the shadow to the tenant's. -/
theorem applyUsers_represents {odataType : String → String} {before after : Tenant}
    {us : List WireUser} {gs : List WireGroup} (hread : DeltaRead odataType before after us gs)
    (hkept : NothingCleared before after) {s : Shadow}
    (hs : ∀ x : String, s.users[x]? = before.users[x]?) (x : String) :
    (s.applyUsers (us.map WireUser.decode)).users[x]? = after.users[x]? := by
  have hview := view_foldl (fun s (e : WireUser) => s.applyUser e.decode)
    (fun s (k : String) => s.users[k]?) WireUser.id
    (fun u e => updateAt WireUser.removed
      (fun u (e : WireUser) => ShadowUser.patch u e.decode) {} u e)
    (fun s e k => applyUser_users s e.decode k) s us x
  rw [Shadow.applyUsers, List.foldl_map]
  refine hview.trans ?_
  rw [hs x]
  cases hx : after.users[x]? with
  | none =>
    apply hread.users.foldl_gone
    · simpa using hx
    · by_cases hb : x ∈ before.users
      · exact .inr hb
      · left
        simpa using hb
  | some u =>
    rw [hread.users.foldl_kept (mem_of_getElem? hx)]
    · congr 1
      ext1
      · exact property_reported hread.displayName hkept.displayName hx (fun _ _ => rfl)
          (by cases before.users[x]? <;> rfl)
      · exact property_reported hread.upn hkept.upn hx (fun _ _ => rfl)
          (by cases before.users[x]? <;> rfl)
      · exact property_reported hread.mail hkept.mail hx (fun _ _ => rfl)
          (by cases before.users[x]? <;> rfl)
      · exact property_reported hread.otherMails hkept.otherMails hx (fun _ _ => rfl)
          (by cases before.users[x]? <;> rfl)
      · exact property_reported hread.accountEnabled hkept.accountEnabled hx (fun _ _ => rfl)
          (by cases before.users[x]? <;> rfl)
      · exact property_reported hread.userType hkept.userType hx (fun _ _ => rfl)
          (by cases before.users[x]? <;> rfl)
    · by_cases hb : x ∈ before.users
      · left
        simpa using hb
      · exact .inr hb

/-- A group without its edges to users the users stream removes. -/
def scrubAll (us : List WireUser) (g : ShadowGroup) : ShadowGroup :=
  { g with members := g.members.filter fun m => !us.any fun e => e.removed && e.id == m.id }

/-- The users stream leaves the groups as they were, scrubbed of removed users. -/
theorem applyUsers_groups (s : Shadow) (us : List WireUser) (x : String) :
    (s.applyUsers (us.map WireUser.decode)).groups[x]? = s.groups[x]?.map (scrubAll us) := by
  induction us generalizing s with
  | nil =>
    have hid : scrubAll [] = id := by
      funext g
      simp [scrubAll]
    simp [Shadow.applyUsers, hid]
  | cons e us ih =>
    have hstep : (s.applyUser e.decode).groups[x]?.map (scrubAll us) =
        s.groups[x]?.map (scrubAll (e :: us)) := by
      unfold Shadow.applyUser
      by_cases hr : e.removed = true
      · have hfilter : ∀ g : ShadowGroup,
            scrubAll us (g.scrub e.id) = scrubAll (e :: us) g := by
          intro g
          simp only [scrubAll, ShadowGroup.scrub, List.filter_filter, List.any_cons, hr]
          congr 1
          apply List.filter_congr
          intro m _
          rw [Bool.not_or, Bool.true_and, Bool.and_comm, bne_comm]
          rfl
        have hdec : e.decode.removed = true := hr
        have hid : e.decode.id = e.id := rfl
        rw [if_pos hdec, hid, ExtTreeMap.getElem?_map, Option.map_map]
        congr 1
        funext g
        exact hfilter g
      · have hdec : e.decode.removed = false := by simpa [WireUser.decode] using hr
        have hsame : scrubAll (e :: us) = scrubAll us := by
          funext g
          simp [scrubAll, Bool.eq_false_iff.mpr hr]
        rw [if_neg (by simp [hdec]), hsame]
    exact (ih (s.applyUser e.decode)).trans hstep

/-- Scrubbing a group drops its edges to removed users and no others. -/
theorem scrubAll_holds {odataType : String → String} {g : ShadowGroup} {ids : String → Prop}
    [DecidablePred ids] (h : HoldsEdges odataType g.members ids) (us : List WireUser) :
    HoldsEdges odataType (scrubAll us g).members
      fun k => ids k ∧ ¬ (us.any fun e => e.removed && e.id == k) = true := by
  intro k
  have hk := h k
  by_cases hgone : (us.any fun e => e.removed && e.id == k) = true
  · have hnone : edgesAt (scrubAll us g).members k = [] := by
      rw [edgesAt, scrubAll, List.filter_filter, List.filter_eq_nil_iff]
      intro m _ hm
      simp only [Bool.and_eq_true, decide_eq_true_eq] at hm
      obtain ⟨hid, hany⟩ := hm
      rw [hid, hgone] at hany
      cases hany
    rw [hnone, if_neg fun hids => hids.2 hgone]
  · have hsame : edgesAt (scrubAll us g).members k = edgesAt g.members k := by
      rw [edgesAt, scrubAll, List.filter_filter, edgesAt]
      apply List.filter_congr
      intro m _
      by_cases hid : m.id = k
      · simp only [hid, Bool.eq_false_iff.mpr hgone]
        simp
      · simp [hid]
    rw [hsame, hk]
    by_cases hids : ids k
    · rw [if_pos hids, if_pos ⟨hids, hgone⟩]
    · rw [if_neg hids, if_neg fun h => hids h.1]

/-- The edges to one id after one edge entry about it. -/
def updateEdges (held : List Member) (d : RawMember) : List Member :=
  if d.removed then [] else if held = [] then [⟨MemberKind.fromOdata d.odataType, d.id⟩] else held

/-- An edge entry touches the edges to its own id only. -/
theorem edgesAt_mergeMember (members : List Member) (d : RawMember) (k : String) :
    edgesAt (mergeMember members d) k =
      if d.id = k then updateEdges (edgesAt members k) d else edgesAt members k := by
  unfold mergeMember updateEdges edgesAt
  by_cases hr : d.removed = true
  · by_cases hk : d.id = k
    · subst hk
      simp only [hr, if_true, List.filter_filter]
      rw [List.filter_eq_nil_iff]
      intro m _
      simp
    · simp only [hr, if_true, hk, if_false, List.filter_filter]
      apply List.filter_congr
      intro m _
      by_cases hm : m.id = k
      · simp [hm, Ne.symm hk]
      · simp [hm]
  · by_cases hany : (members.any fun x => x.id == d.id) = true
    · by_cases hk : d.id = k
      · subst hk
        have hne : (members.filter fun x => decide (x.id = d.id)) ≠ [] := by
          obtain ⟨m, hm, hid⟩ := List.any_eq_true.mp hany
          exact List.ne_nil_of_mem (List.mem_filter.mpr ⟨hm, by simpa using hid⟩)
        simp [hr, hany, hne]
      · simp [hr, hany, hk]
    · have hempty : (members.filter fun x => decide (x.id = d.id)) = [] := by
        rw [List.filter_eq_nil_iff]
        intro m hm hid
        exact hany (List.any_eq_true.mpr ⟨m, hm, by simpa using hid⟩)
      by_cases hk : d.id = k
      · subst hk
        simp [hr, hany, hempty, List.filter_append]
      · simp [hr, hany, hk, List.filter_append]

/-- Entries that all add one edge leave exactly that edge. -/
theorem foldl_updateEdges_added {edge : Member} {ds : List RawMember}
    (hadd : ∀ d ∈ ds, d.removed = false ∧ edge = ⟨MemberKind.fromOdata d.odataType, d.id⟩)
    {held : List Member} (hheld : held = [edge] ∨ held = [] ∧ ds ≠ []) :
    ds.foldl updateEdges held = [edge] := by
  induction ds generalizing held with
  | nil =>
    rcases hheld with h | ⟨_, h⟩
    · exact h
    · exact absurd rfl h
  | cons d ds ih =>
    obtain ⟨hr, he⟩ := hadd d List.mem_cons_self
    rw [List.foldl_cons]
    apply ih fun d' hd' => hadd d' (List.mem_cons_of_mem _ hd')
    left
    rcases hheld with h | ⟨h, _⟩
    · simp [updateEdges, hr, h]
    · simp [updateEdges, hr, h, he]

/-- Entries that all remove one edge leave none. -/
theorem foldl_updateEdges_removed {ds : List RawMember} (hremove : ∀ d ∈ ds, d.removed = true)
    {held : List Member} (hheld : held = [] ∨ ds ≠ []) : ds.foldl updateEdges held = [] := by
  induction ds generalizing held with
  | nil => exact hheld.resolve_right fun h => h rfl
  | cons d ds ih =>
    rw [List.foldl_cons]
    apply ih fun d' hd' => hremove d' (List.mem_cons_of_mem _ hd')
    left
    simp [updateEdges, hremove d List.mem_cons_self]

/-- Edge entries that report every change bring a group to the edges reported. -/
theorem foldl_mergeMember_holds {odataType : String → String} {held ids : String → Prop}
    [DecidablePred held] [DecidablePred ids] {members : List Member} {ds : List RawMember}
    (hmembers : HoldsEdges odataType members held)
    (hadded : ∀ d ∈ ds, d.removed = false → ids d.id ∧ d.odataType = odataType d.id)
    (hremoved : ∀ d ∈ ds, d.removed = true → ¬ ids d.id)
    (hgained : ∀ k, ids k → held k ∨ ∃ d ∈ ds, d.id = k)
    (hlost : ∀ k, held k → ids k ∨ ∃ d ∈ ds, d.id = k) :
    HoldsEdges odataType (ds.foldl mergeMember members) ids := by
  intro k
  rw [view_foldl mergeMember edgesAt RawMember.id updateEdges edgesAt_mergeMember members ds k,
    hmembers k]
  have hne : (∃ d ∈ ds, d.id = k) → (ds.filter fun d => d.id = k) ≠ [] := by
    rintro ⟨d, hd, hid⟩
    exact List.ne_nil_of_mem (List.mem_filter.mpr ⟨hd, decide_eq_true hid⟩)
  by_cases hk : ids k
  · rw [if_pos hk]
    apply foldl_updateEdges_added
    · intro d hd
      obtain ⟨hmem, hid⟩ := List.mem_filter.mp hd
      have hid : d.id = k := of_decide_eq_true hid
      have hr : d.removed = false := by
        by_contra hr
        exact hremoved d hmem (by simpa using hr) (hid ▸ hk)
      refine ⟨hr, ?_⟩
      rw [(hadded d hmem hr).2, hid]
      rfl
    · by_cases hheld : held k
      · exact .inl (if_pos hheld)
      · exact .inr ⟨if_neg hheld, hne ((hgained k hk).resolve_left hheld)⟩
  · rw [if_neg hk]
    apply foldl_updateEdges_removed
    · intro d hd
      obtain ⟨hmem, hid⟩ := List.mem_filter.mp hd
      by_contra hr
      have hin := (hadded d hmem (by simpa using hr)).1
      rw [of_decide_eq_true hid] at hin
      exact hk hin
    · by_cases hheld : held k
      · exact .inr (hne ((hlost k hheld).resolve_left hk))
      · exact .inl (if_neg hheld)

/-- A removal drops one group, and any other entry patches one. -/
theorem applyGroup_groups (s : Shadow) (e : RawGroup) (k : String) :
    (s.applyGroup e).groups[k]? =
      if e.id = k then updateAt RawGroup.removed ShadowGroup.patch {} s.groups[k]? e
      else s.groups[k]? := by
  unfold Shadow.applyGroup
  by_cases hr : e.removed = true
  · by_cases hk : e.id = k
    · simp [hr, hk, updateAt]
    · simp [hr, hk, ExtTreeMap.getElem?_erase]
  · by_cases hk : e.id = k
    · subst hk
      simp [hr, updateAt]
    · simp [hr, hk, ExtTreeMap.getElem?_alter]

/-- The groups stream leaves the users as they were. -/
theorem applyGroups_users (s : Shadow) (es : List RawGroup) :
    (s.applyGroups es).users = s.users := by
  induction es generalizing s with
  | nil => rfl
  | cons e es ih =>
    have hstep : (s.applyGroup e).users = s.users := by
      unfold Shadow.applyGroup
      split <;> rfl
    exact (ih (s.applyGroup e)).trans hstep

/-- The entries about one group merge their edges one after the other. -/
theorem foldl_patch_members (es : List WireGroup) (g : ShadowGroup) :
    (es.foldl (fun g (e : WireGroup) => g.patch e.decode) g).members =
      (es.flatMap fun e => e.membersDelta.getD []).foldl mergeMember g.members := by
  induction es generalizing g with
  | nil => rfl
  | cons e es ih =>
    rw [List.foldl_cons, ih, List.flatMap_cons, List.foldl_append]
    rfl

/-- The groups stream brings the edges of one group to the tenant's. -/
theorem patched_edges {odataType : String → String} {before after : Tenant}
    {us : List WireUser} {gs : List WireGroup}
    (hedges : EdgesReported odataType before after us gs)
    (hpresent : Presence before.users after.users us WireUser.id WireUser.removed) {x : String}
    (hx : x ∈ after.groups) {g : ShadowGroup}
    (hg : HoldsEdges odataType g.members (· ∈ before.members x)) :
    HoldsEdges odataType
      (((gs.filter fun e => e.id = x).foldl (fun g (e : WireGroup) => g.patch e.decode)
        (scrubAll us g)).members) (· ∈ after.members x) := by
  rw [foldl_patch_members]
  have hin : ∀ e ∈ gs, e.id = x → ∀ d ∈ e.membersDelta.getD [],
      d ∈ (gs.filter fun e => e.id = x).flatMap fun e => e.membersDelta.getD [] := by
    intro e he hid d hd
    exact List.mem_flatMap.mpr ⟨e, List.mem_filter.mpr ⟨he, decide_eq_true hid⟩, hd⟩
  have hout : ∀ d ∈ (gs.filter fun e => e.id = x).flatMap fun e => e.membersDelta.getD [],
      ∃ e ∈ gs, e.id = x ∧ d ∈ e.membersDelta.getD [] := by
    intro d hd
    obtain ⟨e, he, hd⟩ := List.mem_flatMap.mp hd
    obtain ⟨hmem, hid⟩ := List.mem_filter.mp he
    exact ⟨e, hmem, of_decide_eq_true hid, hd⟩
  apply foldl_mergeMember_holds (scrubAll_holds hg us)
  · intro d hd hr
    obtain ⟨e, he, hid, hde⟩ := hout d hd
    subst hid
    exact hedges.added e he d hde hr
  · intro d hd hr
    obtain ⟨e, he, hid, hde⟩ := hout d hd
    subst hid
    exact hedges.dropped e he d hde hr
  · intro k hk
    by_cases hb : k ∈ before.members x
    · -- An edge of the tenant is not scrubbed, as no removed user is on one.
      refine .inl ⟨hb, fun hany => ?_⟩
      obtain ⟨e, he, hgone⟩ := List.any_eq_true.mp hany
      simp only [Bool.and_eq_true, beq_iff_eq] at hgone
      exact hedges.scrubbed e he hgone.1 x (hgone.2 ▸ hk)
    · obtain ⟨e, he, hid, d, hd, hdk, _⟩ := hedges.gained x k hk hb
      exact .inr ⟨d, hin e he hid d hd, hdk⟩
  · intro k ⟨hb, hkept⟩
    by_cases hk : k ∈ after.members x
    · exact .inl hk
    · rcases hedges.lost x hx k hb hk with ⟨hub, hua⟩ | ⟨e, he, hid, d, hd, hdk, _⟩
      · -- The edge was lost with its user, whose removal scrubbed it.
        obtain ⟨e, he, hid⟩ := hpresent.left k hub hua
        have hr : e.removed = true := by
          by_contra hr
          exact hua (hid ▸ hpresent.present e he (by simpa using hr))
        exact absurd (List.any_eq_true.mpr ⟨e, he, by simp [hr, hid]⟩) hkept
      · exact .inr ⟨d, hin e he hid d hd, hdk⟩

/-- The shadow after one whole read. -/
def mergeRead (s : Shadow) (us : List WireUser) (gs : List WireGroup) : Shadow :=
  (s.applyUsers (us.map WireUser.decode)).applyGroups (gs.map WireGroup.decode)

/-- The shadow holds a group exactly when the tenant does. -/
theorem Represents.group_absent {odataType : String → String} {s : Shadow} {t : Tenant}
    (h : Represents odataType s t) (x : String) : s.groups[x]? = none ↔ x ∉ t.groups := by
  have hrel := h.groups x
  rw [ExtTreeMap.mem_iff_isSome_getElem?]
  generalize t.groups[x]? = there at hrel
  generalize s.groups[x]? = held at hrel
  cases hrel with
  | none => simp
  | some _ => simp

/-- What a group's entries start from: the record held, or an empty one. -/
theorem Represents.group_start {odataType : String → String} {s : Shadow} {t : Tenant}
    (h : Represents odataType s t) (x : String) :
    (s.groups[x]?.getD {}).displayName = t.groups[x]?.bind TenantGroup.displayName ∧
      HoldsEdges odataType (s.groups[x]?.getD {}).members (· ∈ t.members x) := by
  have hrel := h.groups x
  unfold Tenant.members
  generalize t.groups[x]? = there at hrel
  generalize s.groups[x]? = held at hrel
  cases hrel with
  | none => exact ⟨rfl, fun k => by simp [edgesAt]⟩
  | some hmatch => exact ⟨hmatch.displayName, hmatch.members⟩

/-- A read that clears nothing brings the shadow of one tenant to the next. -/
theorem mergeRead_represents {odataType : String → String} {before after : Tenant}
    {us : List WireUser} {gs : List WireGroup} (hread : DeltaRead odataType before after us gs)
    (hkept : NothingCleared before after) {s : Shadow} (hs : Represents odataType s before) :
    Represents odataType (mergeRead s us gs) after := by
  constructor
  · intro x
    rw [mergeRead, applyGroups_users]
    exact applyUsers_represents hread hkept hs.users x
  · intro x
    have hview := view_foldl (fun s (e : WireGroup) => s.applyGroup e.decode)
      (fun s (k : String) => s.groups[k]?) WireGroup.id
      (fun g e => updateAt WireGroup.removed
        (fun g (e : WireGroup) => ShadowGroup.patch g e.decode) {} g e)
      (fun s e k => applyGroup_groups s e.decode k) (s.applyUsers (us.map WireUser.decode)) gs x
    rw [mergeRead, Shadow.applyGroups, List.foldl_map]
    rw [show _ = _ from hview, applyUsers_groups]
    obtain ⟨hname, hedges⟩ := hs.group_start x
    have hheld : s.groups[x]? = none ↔ x ∉ before.groups := hs.group_absent x
    cases hx : after.groups[x]? with
    | none =>
      have hnone : x ∉ after.groups := by simpa using hx
      rw [hread.groups.foldl_gone hnone]
      · exact .none
      · by_cases hb : x ∈ before.groups
        · exact .inr hb
        · left
          rw [hheld.mpr hb]
          rfl
    | some t =>
      have hin := mem_of_getElem? hx
      have hstart : (s.groups[x]?.map (scrubAll us)).getD {} = scrubAll us (s.groups[x]?.getD {}) := by
        cases s.groups[x]? <;> rfl
      rw [hread.groups.foldl_kept hin, hstart]
      · refine .some ⟨?_, ?_⟩
        · exact property_reported hread.groupName hkept.groupName hx (fun _ _ => rfl) hname
        · have hpatched := patched_edges hread.edges hread.users hin hedges
          simpa [Tenant.members, hx] using hpatched
      · by_cases hb : x ∈ before.groups
        · left
          cases hs' : s.groups[x]? with
          | none => exact absurd hb (hheld.mp hs')
          | some g => simp
        · exact .inr hb

/-- Two lists that hold the same edges, each once, hold them in some order. -/
theorem perm_of_holdsEdges {odataType : String → String} {ids : String → Prop}
    [DecidablePred ids] {a b : List Member} (ha : HoldsEdges odataType a ids)
    (hb : HoldsEdges odataType b ids) : a.Perm b := by
  rw [List.perm_iff_count]
  intro m
  have hcount : ∀ l : List Member, l.count m = (edgesAt l m.id).count m := by
    intro l
    rw [edgesAt, List.count_filter (by simp)]
  rw [hcount a, hcount b, ha m.id, hb m.id]

/-- One read of both streams and the tenant it is a reading of. -/
structure Read where
  tenant : Tenant
  users : List WireUser
  groups : List WireGroup

/-- The tenant at the last read, and the shadow merged so far. -/
structure Replica where
  tenant : Tenant := {}
  shadow : Shadow := {}

/-- A replica after one more read. -/
def Replica.next (p : Replica) (r : Read) : Replica :=
  ⟨r.tenant, mergeRead p.shadow r.users r.groups⟩

/-- A read as the contract gives it: a full one from the empty tenant, and from
then on what changed since the last read. -/
def Contract (odataType : String → String) (p : Replica) (r : Read) : Prop :=
  DeltaRead odataType p.tenant r.tenant r.users r.groups

/-- Nothing is cleared between the empty tenant and any other. -/
theorem nothingCleared_empty (t : Tenant) : NothingCleared {} t := by
  constructor <;> (intro x r r' h; simp at h)

/-- The empty shadow represents the empty tenant. -/
theorem represents_empty (odataType : String → String) : Represents odataType {} {} :=
  ⟨fun _ => rfl, fun _ => by simp⟩

section Enumerate

variable [UnicodeTables]

/-- What two enumerations must agree on: accounts, refusals, groups, and the
edges of every group in any order. -/
structure Agree (a b : Enumeration) : Prop where
  users : a.users = b.users
  refused : a.refused = b.refused
  groups : a.groups = b.groups
  membership : ∀ x : String, Option.Rel List.Perm a.membership[x]? b.membership[x]?

/-- Two shadows of one tenant enumerate alike. -/
theorem agree_of_represents {odataType : String → String} {a b : Shadow} {t : Tenant}
    (ha : Represents odataType a t) (hb : Represents odataType b t) (samSource : SamSource) :
    Agree (a.enumerate samSource) (b.enumerate samSource) := by
  have husers : a.users = b.users := by
    apply ExtTreeMap.ext_getElem?
    intro x
    rw [ha.users x, hb.users x]
  have hgroups : ∀ x : String, Option.Rel (fun g g' : ShadowGroup =>
      g.displayName = g'.displayName ∧ g.members.Perm g'.members) a.groups[x]? b.groups[x]? := by
    intro x
    have hra := ha.groups x
    have hrb := hb.groups x
    generalize t.groups[x]? = there at hra hrb
    generalize a.groups[x]? = ga at hra
    generalize b.groups[x]? = gb at hrb
    cases hra with
    | none =>
      cases hrb with
      | none => exact .none
    | some hma =>
      cases hrb with
      | some hmb =>
        exact .some ⟨hma.displayName.trans hmb.displayName.symm,
          perm_of_holdsEdges hma.members hmb.members⟩
  constructor
  · simp only [Shadow.enumerate, husers]
  · simp only [Shadow.enumerate, husers]
  · apply ExtTreeMap.ext_getElem?
    intro x
    simp only [Shadow.enumerate, ExtTreeMap.getElem?_map]
    have hrel := hgroups x
    generalize a.groups[x]? = ga at hrel
    generalize b.groups[x]? = gb at hrel
    cases hrel with
    | none => rfl
    | some h => simp [h.1]
  · intro x
    simp only [Shadow.enumerate, ExtTreeMap.getElem?_map]
    have hrel := hgroups x
    generalize a.groups[x]? = ga at hrel
    generalize b.groups[x]? = gb at hrel
    cases hrel with
    | none => exact .none
    | some h => exact .some (h.2.filterMap enumerateEdge)

/-- The merged shadow enumerates as one freshly filled from the same tenant does. -/
def AgreesWithFull (odataType : String → String) (samSource : SamSource) (p : Replica) : Prop :=
  ∀ us gs, DeltaRead odataType {} p.tenant us gs →
    Agree (p.shadow.enumerate samSource) ((mergeRead {} us gs).enumerate samSource)

end Enumerate

/-- A tenant of one user. -/
def sampleTenant (u : ShadowUser) : Tenant :=
  { users := ({} : ExtTreeMap String ShadowUser).insert "alice" u }

/-- An entry that carries every property of the one user. -/
def sampleEntry (u : ShadowUser) : WireUser where
  id := "alice"
  displayName := .carry u.displayName
  upn := .carry u.upn
  mail := .carry u.mail
  otherMails := .carry u.otherMails
  accountEnabled := .carry u.accountEnabled
  userType := .carry u.userType

/-- A read of the one user. -/
def sampleRead (u : ShadowUser) : Read := ⟨sampleTenant u, [sampleEntry u], []⟩

/-- The one user is the only one to look up. -/
theorem sampleTenant_lookup {u r : ShadowUser} {x : String}
    (h : (sampleTenant u).users[x]? = some r) : x = "alice" ∧ r = u := by
  unfold sampleTenant at h
  rw [ExtTreeMap.getElem?_insert] at h
  split at h
  · rename_i hx
    exact ⟨(Std.LawfulEqCmp.eq_of_compare hx).symm, (Option.some.inj h).symm⟩
  · simp at h

/-- The one user's entry reports each of its properties. -/
theorem sample_reported {α : Type} (before : ExtTreeMap String ShadowUser) (u : ShadowUser)
    {get : ShadowUser → Option α} {field : WireUser → Field α}
    (h : field (sampleEntry u) = .carry (get u)) :
    Reported before (sampleTenant u).users [sampleEntry u] WireUser.id get field := by
  intro x r hr
  obtain ⟨rfl, rfl⟩ := sampleTenant_lookup hr
  constructor
  · intro e he _
    rw [List.mem_singleton.mp he]
    exact .inr h
  · intro _
    exact ⟨sampleEntry r, List.mem_singleton_self _, rfl, h⟩

/-- The one user's entry is a read from any tenant with no other user and no group. -/
theorem sample_contract {odataType : String → String} {before : Tenant} (u : ShadowUser)
    (husers : ∀ x ∈ before.users, x = "alice") (hgroups : before.groups = {}) :
    DeltaRead odataType before (sampleTenant u) [sampleEntry u] [] where
  users :=
    { present := by
        intro e he _
        rw [List.mem_singleton.mp he]
        simp [sampleTenant, sampleEntry]
      absent := by
        intro e he hr
        rw [List.mem_singleton.mp he] at hr
        cases hr
      created := by
        intro x hx _
        rw [ExtTreeMap.mem_iff_isSome_getElem?, Option.isSome_iff_exists] at hx
        obtain ⟨r, hr⟩ := hx
        exact ⟨sampleEntry u, List.mem_singleton_self _, (sampleTenant_lookup hr).1.symm⟩
      left := by
        intro x hx hout
        rw [husers x hx] at hout
        exact absurd (by simp [sampleTenant]) hout }
  displayName := sample_reported _ u rfl
  upn := sample_reported _ u rfl
  mail := sample_reported _ u rfl
  otherMails := sample_reported _ u rfl
  accountEnabled := sample_reported _ u rfl
  userType := sample_reported _ u rfl
  groups := by constructor <;> simp [hgroups, sampleTenant]
  groupName := by
    intro x r hr
    simp [sampleTenant] at hr
  edges := by constructor <;> simp [hgroups, sampleTenant, Tenant.members, sampleEntry]

/-- The members of the sample tenants are users. -/
def sampleType (_ : String) : String := "#microsoft.graph.user"

/-- An account with a mailbox. -/
def sampleUser : ShadowUser := { mail := some "alice@example.com", userType := some "Member" }

/-- The same account, renamed. -/
def sampleRenamed : ShadowUser := { sampleUser with displayName := some "Alice" }

/-- The same account, its mailbox cleared. -/
def sampleCleared : ShadowUser := { sampleUser with mail := none }

/-- Two reads of the one user meet the contract. -/
theorem sample_reads (u u' : ShadowUser) :
    Everywhere Replica.next (Contract sampleType) {} [sampleRead u, sampleRead u'] := by
  refine ⟨sample_contract u (by simp) rfl, ?_, trivial⟩
  apply sample_contract u'
  · intro x hx
    have hx : x ∈ (sampleTenant u).users := hx
    rw [ExtTreeMap.mem_iff_isSome_getElem?, Option.isSome_iff_exists] at hx
    obtain ⟨r, hr⟩ := hx
    exact (sampleTenant_lookup hr).1
  · rfl

/-- What the one user keeps is not cleared. -/
theorem sample_uncleared {α : Type} {u u' : ShadowUser} {get : ShadowUser → Option α}
    (h : get u' = none → get u = none) :
    Uncleared (sampleTenant u).users (sampleTenant u').users get := by
  intro x r r' hr hr' hnone
  obtain ⟨-, rfl⟩ := sampleTenant_lookup hr
  obtain ⟨-, rfl⟩ := sampleTenant_lookup hr'
  exact h hnone

/-- A rename clears nothing. -/
theorem sample_nothingCleared :
    NothingCleared (sampleTenant sampleUser) (sampleTenant sampleRenamed) where
  displayName := sample_uncleared fun _ => rfl
  upn := sample_uncleared fun _ => rfl
  mail := sample_uncleared id
  otherMails := sample_uncleared fun _ => rfl
  accountEnabled := sample_uncleared fun _ => rfl
  userType := sample_uncleared id
  groupName := by
    intro x r r' hr
    simp [sampleTenant] at hr

end Kerbridge.EntraDelta

import Kerbridge.ApplyFrame

/-!
# Applying a plan, step by step

A plan is applied request by request, and whatever becomes of the requests, every moment
comes after some of them. Each request is kept beside the operation it belongs to, so that
what an invariant needs of a request is read off the plan, and which requests came before
it is read off the order of the plan.
-/

namespace Kerbridge.ApplySteps

open UnicodeText LdapFilter RealmDirectory RealmChanges RealmState Attempts Planner PlanApply
  Succession ApplyFrame
open DistinguishedName (parentOf)

/-- The requests of a plan in order, each with the operation it belongs to. -/
def steps (markers : List (String × List String)) (planned : List Planned) :
    List (Planned × Request) :=
  (planned.map fun e => (sent (requests markers e.op)).map fun q => (e, q)).flatten

section Order

variable {markers : List (String × List String)}

/-- A request of a plan is one of its operation's. -/
theorem mem_steps {planned : List Planned} {x : Planned × Request}
    (h : x ∈ steps markers planned) :
    x.1 ∈ planned ∧ ∃ rs, requests markers x.1.op = .ok rs ∧ x.2 ∈ rs := by
  obtain ⟨block, hblock, hx⟩ := List.mem_flatten.mp h
  obtain ⟨e, he, rfl⟩ := List.mem_map.mp hblock
  obtain ⟨q, hq, rfl⟩ := List.mem_map.mp hx
  refine ⟨he, ?_⟩
  dsimp only
  cases hrs : requests markers e.op with
  | error why =>
    rw [hrs] at hq
    cases hq
  | ok rs =>
    rw [hrs] at hq
    exact ⟨rs, rfl, hq⟩

/-- The requests before one belong to the operations before its own, or to its own. -/
theorem steps_split {planned : List Planned} {pre post : List (Planned × Request)}
    {x : Planned × Request} (h : steps markers planned = pre ++ x :: post) :
    ∃ before after qs qs', planned = before ++ x.1 :: after ∧
      sent (requests markers x.1.op) = qs ++ x.2 :: qs' ∧
      pre = steps markers before ++ qs.map fun q => (x.1, q) := by
  obtain ⟨blocks, front, back, blocks', hblocks, hpre⟩ := flatten_split h
  obtain ⟨before, rest, rfl, hbefore, hrest⟩ := List.map_eq_append_iff.mp hblocks
  obtain ⟨e, after, rfl, hblock, _⟩ := List.map_eq_cons_iff.mp hrest
  obtain ⟨qs, qs'', hsent, hfront, hx⟩ := List.map_eq_append_iff.mp hblock
  obtain ⟨q, qs', rfl, rfl, _⟩ := List.map_eq_cons_iff.mp hx
  refine ⟨before, after, qs, qs', rfl, hsent, ?_⟩
  rw [hpre, ← hbefore, ← hfront]
  rfl

/-- The one change an operation is, where it is one. -/
def Op.change (markers : List (String × List String)) : Op → Option Change
  | .addMember _ member => some (.add "member" member)
  | .removeMember _ member => some (.delete "member" [member])
  | .enableUser _ => some (.replace "userAccountControl" [uacEnabled])
  | .disableUser _ => some (.replace "userAccountControl" [uacDisabled])
  | .setAttr _ attr value => if attr ∈ settableAttrs then some (.replace attr [value]) else none
  | .setMarker _ value => some (.add "extensionName" value)
  | .setRoleMarker _ value => some (.add "extensionName" value)
  | .clearMembers _ keep => some (.replace "member" keep.dedup)
  | .clearMarker dn pre =>
    if toDelete markers dn pre = [] then none
    else some (.delete "extensionName" (toDelete markers dn pre))
  | _ => none

/-- A change of markers is one more, or takes those off that a clear found. -/
theorem change_marker {markers : List (String × List String)} {op : Op} {ch : Change}
    (h : Op.change markers op = some ch) (hattr : ch.attr = "extensionName") :
    (∃ v, ch = .add "extensionName" v) ∨
      ∃ pre, op = .clearMarker op.dn pre ∧ ch = .delete "extensionName" (toDelete markers op.dn pre) := by
  cases op with
  | createUser => cases h
  | createGroup => cases h
  | rename => cases h
  | addMember =>
    cases h
    simp [Change.attr] at hattr
  | removeMember =>
    cases h
    simp [Change.attr] at hattr
  | enableUser =>
    cases h
    simp [Change.attr] at hattr
  | disableUser =>
    cases h
    simp [Change.attr] at hattr
  | setAttr dn attr value =>
    unfold Op.change at h
    dsimp only at h
    split at h
    · rename_i hsettable
      cases h
      obtain rfl : attr = "extensionName" := hattr
      exact absurd hsettable (by decide)
    · cases h
  | setMarker dn value =>
    cases h
    exact Or.inl ⟨value, rfl⟩
  | setRoleMarker dn value =>
    cases h
    exact Or.inl ⟨value, rfl⟩
  | clearMembers =>
    cases h
    simp [Change.attr] at hattr
  | clearMarker dn pre =>
    unfold Op.change at h
    dsimp only at h
    split at h
    · cases h
    · cases h
      exact Or.inr ⟨pre, rfl, rfl⟩

/-- A request is part of a creation, part of a rename, or the one change of an operation. -/
theorem requests_cases {op : Op} {rs : List Request} (h : requests markers op = .ok rs)
    {q : Request} (hq : q ∈ rs) :
    (op.creates = true ∧ ((∃ attrs, q = .add op.dn attrs) ∨ q = .assertNoRoleMarkerYet)) ∨
    (∃ dn cn shown sam upn, op = .rename dn cn shown sam upn ∧ (q = .modifyDn dn ("CN=" ++ cn) ∨
      ∃ attr ∈ settableAttrs, ∃ v,
        q = .modify ("CN=" ++ cn ++ "," ++ parentOf dn) (.replace attr [v]))) ∨
    ∃ c, Op.change markers op = some c ∧ q = .modify op.dn c := by
  have hchange : ∀ {c}, Op.change markers op = some c → rs = [.modify op.dn c] →
      ∃ c, Op.change markers op = some c ∧ q = .modify op.dn c := by
    rintro c hc rfl
    exact ⟨c, hc, List.mem_singleton.mp hq⟩
  cases op with
  | createUser dn sam upn displayName enabled identity =>
    cases h
    exact Or.inl ⟨rfl, Or.inl ⟨_, List.mem_singleton.mp hq⟩⟩
  | createGroup dn sam identity roleMarker =>
    refine Or.inl ⟨rfl, ?_⟩
    cases roleMarker with
    | none =>
      cases h
      exact Or.inl ⟨_, List.mem_singleton.mp hq⟩
    | some marker =>
      cases h
      rcases List.mem_cons.mp hq with rfl | hq
      · exact Or.inr rfl
      · exact Or.inl ⟨_, List.mem_singleton.mp hq⟩
  | rename dn newCn shown sam upn =>
    have hreplacing : ∀ {attr : String} {value : Option String}, attr ∈ settableAttrs →
        q ∈ replacing ("CN=" ++ newCn ++ "," ++ parentOf dn) attr value → ∃ attr ∈ settableAttrs,
          ∃ v, q = .modify ("CN=" ++ newCn ++ "," ++ parentOf dn) (.replace attr [v]) := by
      intro attr value hattr hq
      unfold replacing at hq
      cases value with
      | none => cases hq
      | some v => exact ⟨attr, hattr, v, List.mem_singleton.mp hq⟩
    cases h
    refine Or.inr (Or.inl ⟨dn, newCn, shown, sam, upn, rfl, ?_⟩)
    simp only [List.cons_append, List.mem_cons, List.mem_append] at hq
    rcases hq with rfl | (hq | hq) | hq
    · exact Or.inl rfl
    · exact Or.inr (hreplacing (by decide) hq)
    · exact Or.inr (hreplacing (by decide) hq)
    · exact Or.inr (hreplacing (by decide) hq)
  | setAttr dn attr value =>
    unfold requests at h
    dsimp only at h
    split at h
    · rename_i hattr
      exact Or.inr (Or.inr (hchange (if_pos hattr) (Except.ok.inj h).symm))
    · cases h
  | clearMarker dn pre =>
    unfold requests at h
    dsimp only at h
    split at h
    · cases h
      cases hq
    · rename_i hsome
      exact Or.inr (Or.inr (hchange (if_neg hsome) (Except.ok.inj h).symm))
  | addMember => exact Or.inr (Or.inr (hchange rfl (Except.ok.inj h).symm))
  | removeMember => exact Or.inr (Or.inr (hchange rfl (Except.ok.inj h).symm))
  | enableUser => exact Or.inr (Or.inr (hchange rfl (Except.ok.inj h).symm))
  | disableUser => exact Or.inr (Or.inr (hchange rfl (Except.ok.inj h).symm))
  | setMarker => exact Or.inr (Or.inr (hchange rfl (Except.ok.inj h).symm))
  | setRoleMarker => exact Or.inr (Or.inr (hchange rfl (Except.ok.inj h).symm))
  | clearMembers => exact Or.inr (Or.inr (hchange rfl (Except.ok.inj h).symm))

/-- What comes of an operation: additions of a creation alone, and renames of a rename. -/
theorem requests_mem {op : Op} {rs : List Request} (h : requests markers op = .ok rs) {q : Request}
    (hq : q ∈ rs) : (∀ dn attrs, q = .add dn attrs → op.creates = true) ∧
      ∀ dn rdn, q = .modifyDn dn rdn → ∃ cn shown sam upn, op = .rename dn cn shown sam upn := by
  rcases requests_cases h hq with ⟨hcreates, ⟨attrs, rfl⟩ | rfl⟩ |
    ⟨dn, cn, shown, sam, upn, rfl, rfl | ⟨attr, _, v, rfl⟩⟩ | ⟨c, _, rfl⟩
  · exact ⟨fun _ _ _ => hcreates, by simp⟩
  · exact ⟨by simp, by simp⟩
  · refine ⟨by simp, ?_⟩
    intro dn' rdn hdn
    cases hdn
    exact ⟨cn, shown, sam, upn, rfl⟩
  · exact ⟨by simp, by simp⟩
  · exact ⟨by simp, by simp⟩

/-- A change of an attribute that is no name is the change of its operation. -/
theorem modify_mem {op : Op} {rs : List Request} (h : requests markers op = .ok rs) {dn : String}
    {ch : Change} (hmem : .modify dn ch ∈ rs) (hattr : ch.attr ∉ settableAttrs) :
    Op.change markers op = some ch ∧ dn = op.dn := by
  rcases requests_cases h hmem with ⟨_, ⟨attrs, hq⟩ | hq⟩ |
    ⟨_, _, _, _, _, _, hq | ⟨attr, hsettable, v, hq⟩⟩ | ⟨ch', hch', hq⟩
  · cases hq
  · cases hq
  · cases hq
  · rw [Request.modify.injEq] at hq
    rw [hq.2] at hattr
    exact absurd hsettable hattr
  · rw [Request.modify.injEq] at hq
    exact ⟨hq.2 ▸ hch', hq.1⟩

/-- The object a request of a plan makes. -/
def madeBy (x : Planned × Request) : Option Meant :=
  match x.2 with
  | .add .. => some x.1.about
  | _ => none

/-- The requests of a plan make what its operations make, once each. -/
theorem steps_makes (planned : List Planned) :
    ((steps markers planned).filterMap madeBy).Sublist (planned.filterMap Planned.makes) := by
  have hblock : ∀ e : Planned, (((sent (requests markers e.op)).map fun q => (e, q)).filterMap
      madeBy).Sublist (Planned.makes e).toList := by
    intro e
    by_cases hcreates : e.op.creates = true
    · obtain ⟨about, op⟩ := e
      cases op with
      | createUser => exact List.Sublist.refl _
      | createGroup dn sam identity roleMarker =>
        cases roleMarker with
        | none => exact List.Sublist.refl _
        | some marker => exact List.Sublist.refl _
      | _ => cases hcreates
    · have hnil : ((sent (requests markers e.op)).map fun q => (e, q)).filterMap madeBy = [] := by
        refine List.filterMap_eq_nil_iff.mpr ?_
        intro x hx
        obtain ⟨q, hq, rfl⟩ := List.mem_map.mp hx
        cases hrs : requests markers e.op with
        | error why =>
          rw [hrs] at hq
          cases hq
        | ok rs =>
          rw [hrs] at hq
          unfold madeBy
          dsimp only
          split
          · rename_i dn attrs
            exact absurd ((requests_mem hrs hq).1 dn attrs rfl) hcreates
          · rfl
      rw [hnil]
      exact List.nil_sublist _
  induction planned with
  | nil => exact List.Sublist.refl _
  | cons e planned ih =>
    have hcons : steps markers (e :: planned) =
        (sent (requests markers e.op)).map (fun q => (e, q)) ++ steps markers planned := rfl
    have hmakes : (e :: planned).filterMap Planned.makes =
        (Planned.makes e).toList ++ planned.filterMap Planned.makes := by
      rw [List.filterMap_cons]
      cases Planned.makes e with
      | none => rfl
      | some _ => rfl
    rw [hcons, hmakes, List.filterMap_append]
    exact (hblock e).append ih

end Order

variable {server : Server}

/-- What a request that was carried out left of an object: only a rename that addresses it
gives it another name, and only a change that addresses it other values. -/
structure After (naming : Naming server) (q : Request) (o o' : Entry) : Prop where
  binary : o'.binAttrs = o.binAttrs
  named : o'.dn = o.dn ∨ ∃ dn rdn, q = .modifyDn dn rdn ∧ server.sameDn o.dn dn = true ∧
    naming.named o.dn rdn = some o'.dn
  valued : ∀ attr, attr ∉ linkAttrs → o'.attrs attr = o.attrs attr ∨
    ∃ dn c, q = .modify dn c ∧ c.attr = attr ∧ server.sameDn o.dn dn = true ∧
      c.values server (o.attrs attr) = .ok (o'.attrs attr)

/-- An object that nothing happened to. -/
theorem After.refl {naming : Naming server} {q : Request} (o : Entry) : After naming q o o :=
  ⟨rfl, Or.inl rfl, fun _ _ => Or.inl rfl⟩

/-- A request that was carried out made an object, behind the others, or left every object
in its place. -/
theorem make_after {naming : Naming server} {idpOu : String} {q : Request} {r r' : Realm server}
    (h : make naming idpOu q r = .ok r') :
    (∃ dn attrs, q = .add dn attrs ∧ (∀ o ∈ r.entries, server.sameDn o.dn dn = false) ∧
      r'.entries = r.entries ++ [newEntry dn attrs]) ∨
    ∃ f, r'.entries = r.entries.map f ∧ ∀ o ∈ r.entries, After naming q o (f o) := by
  rcases make_ok h with ⟨dn, attrs, rfl, hadd⟩ | ⟨dn, c, rfl, hmodify⟩ | ⟨dn, rdn, rfl, hrename⟩ |
    ⟨rfl, _, rfl⟩
  · obtain ⟨hfree, hr'⟩ := add_ok hadd
    exact Or.inl ⟨dn, attrs, rfl, hfree, hr'⟩
  · obtain ⟨e, _, hsame, attrs, f, hattrs, hr', hfe, hfo⟩ := modify_ok hmodify
    refine Or.inr ⟨f, hr', ?_⟩
    intro o ho
    by_cases hoe : o = e
    · rw [hoe, hfe]
      refine ⟨rfl, Or.inl rfl, ?_⟩
      intro attr _
      by_cases hattr : attr = c.attr
      · obtain ⟨_, vs, hvs, rfl⟩ := changed_ok hattrs
        refine Or.inr ⟨dn, c, rfl, hattr.symm, hsame, ?_⟩
        have hself : Function.update e.attrs c.attr vs c.attr = vs := Function.update_self ..
        rw [hattr]
        exact hvs.trans (congrArg Except.ok hself.symm)
      · exact Or.inl (changed_other hattrs hattr)
    · rw [hfo o ho hoe]
      exact After.refl o
  · obtain ⟨e, he, hsame, new, hnew, _, hr'⟩ := modifyDn_ok hrename
    refine Or.inr ⟨_, hr', ?_⟩
    intro o ho
    refine ⟨rfl, ?_, fun attr hattr => Or.inl (followed_other hattr)⟩
    unfold renamedEntry
    dsimp only
    split
    · rename_i hoe
      rw [r.eq_of_sameDn ho he hoe]
      exact Or.inr ⟨dn, rdn, rfl, hsame, hnew⟩
    · exact Or.inl rfl
  · exact Or.inr ⟨id, (List.map_id _).symm, fun o _ => After.refl o⟩

/-- What holds before any request of a plan, and after each that was carried out or not,
holds at every moment of its run, after those requests that came before. -/
theorem moments_after {naming : Naming server} {idpOu : String}
    {markers : List (String × List String)} {planned : List Planned}
    {Inv : List (Planned × Request) → Realm server → Prop}
    (h : Advances (service naming idpOu) Prod.snd (steps markers planned) Inv)
    (fates : ℕ → ℕ → Fate String) {r : Realm server} (hr : Inv [] r) :
    ∀ m ∈ momentsOf naming idpOu markers (planned.map Planned.op) fates r,
      ∃ done, done <+: steps markers planned ∧ Inv done m := by
  have htasks : List.Forall₂ (fun t bs => sent t = bs.map Prod.snd)
      ((planned.map Planned.op).map (requests markers))
      (planned.map fun e => (sent (requests markers e.op)).map fun q => (e, q)) := by
    rw [List.map_map, List.forall₂_map_left_iff, List.forall₂_map_right_iff, List.forall₂_same]
    intro e _
    rw [List.map_map]
    exact (List.map_id _).symm
  have hall : steps markers planned = [] ++ steps markers planned ++ [] := by simp
  exact (h.batch htasks hall fates hr).1

end Kerbridge.ApplySteps

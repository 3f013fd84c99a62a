import Kerbridge.PlanShape

/-!
# The order of a plan

An operation addresses its object by a name, so it matters what comes before it. What a plan
does to an account that leaves is said here with its place: until the account gives up its
name, no operation of the plan has moved it.
-/

namespace Kerbridge.Planner

open Std (ExtTreeMap)
open UnicodeText DirectorySource DistinguishedName RealmState StoredIdentity Fallible Runs Succession

variable [UnicodeTables]

/-- The account a turn lets go, if it may. -/
def Turn.leaver : Turn → Option Subject
  | .userLeaver oid => some oid
  | _ => none

/-- The accounts that were read have a turn to leave, in order. -/
theorem turns_leaver (s : Scene) : (turns s).filterMap Turn.leaver = sortedOids s.current.users := by
  have hmap : ∀ {β : Type} (l : List β) (f : β → Turn), (∀ b, (f b).leaver = none) →
      (l.map f).filterMap Turn.leaver = [] := by
    intro β l f h
    rw [List.filterMap_map]
    exact List.filterMap_eq_nil_iff.mpr fun b _ => h b
  have hleavers : ((sortedOids s.current.users).map Turn.userLeaver).filterMap Turn.leaver =
      sortedOids s.current.users := by
    rw [List.filterMap_map]
    exact List.filterMap_some
  have hcollisions : [Turn.collisions].filterMap Turn.leaver = [] := rfl
  have hgrant : [Turn.grant].filterMap Turn.leaver = [] := rfl
  unfold turns
  simp only [List.filterMap_append, hleavers, hcollisions, hgrant]
  rw [hmap _ Turn.user fun _ => rfl, hmap _ Turn.group fun _ => rfl,
    hmap _ Turn.groupLeaver fun _ => rfl, hmap _ Turn.member fun _ => rfl]
  simp

/-- A turn on a desired account is on one. -/
theorem desired_of_turn {s : Scene} {entry : Subject × DesiredUser}
    (h : Turn.user entry ∈ turns s) : entry.1 ∈ s.desired.users := by
  have hmem : entry ∈ s.desired.users.toList := by simpa [turns] using h
  exact mem_of_mem_toList hmem

/-- What a turn does to an account it does to a desired one, or to one that leaves. -/
theorem turn_of_user {s : Scene} {t : Turn} {es : List Planned} (h : TurnShape s t es) {e : Planned}
    (he : e ∈ es) {oid : Subject} (habout : e.about = ⟨.user, oid⟩) :
    (∃ entry, t = .user entry ∧ entry.1 = oid) ∨
    t = .userLeaver oid ∧ oid ∉ s.desired.users ∧ ∃ cu ops, lookup s.current.users oid = some cu ∧
      es = plannedFor ⟨.user, oid⟩ (leaveOps s cu ++ ops) ∧
      (ops = [] ∨ ∃ cn sam, ops = [.rename cu.dn cn none (some sam) (upnOf s sam)]) := by
  have hsame : ∀ {about : Meant} {ops : List Op}, e ∈ plannedFor about ops → e.about = about := by
    intro about ops he
    obtain ⟨op, _, rfl⟩ := List.mem_map.mp he
    rfl
  cases h with
  | idle => cases he
  | @create entry =>
    rw [hsame he] at habout
    exact Or.inl ⟨entry, rfl, congrArg Meant.subject habout⟩
  | @live entry =>
    rw [hsame he] at habout
    exact Or.inl ⟨entry, rfl, congrArg Meant.subject habout⟩
  | leave hgone _ hcu hops =>
    rw [hsame he] at habout
    obtain rfl := congrArg Meant.subject habout
    refine Or.inr ⟨rfl, hgone, _, _, hcu, rfl, ?_⟩
    rcases hops with ⟨_, rfl⟩ | ⟨cn, sam, rfl⟩
    · exact Or.inl rfl
    · exact Or.inr ⟨cn, sam, rfl⟩
  | createGroup =>
    rw [hsame he] at habout
    cases habout
  | liveGroup =>
    rw [hsame he] at habout
    cases habout
  | leaveGroup =>
    rw [hsame he] at habout
    cases habout
  | grant =>
    rcases List.mem_append.mp he with he | he
    · obtain ⟨oid, _, hfound⟩ := List.mem_filterMap.mp he
      obtain ⟨cg, _, rfl⟩ := Option.map_eq_some_iff.mp hfound
      cases habout
    · unfold grantOps at he
      split at he
      · cases he
      · rw [hsame he] at habout
        cases habout
  | member =>
    rw [hsame he] at habout
    cases habout

/-- Where an operation of a plan stands: among the clears of role markers, which are on
groups, or in a turn, behind the turns before it. -/
theorem planned_split {desired : Desired} {current : Current} {ctx : PlanCtx} {p : Planning}
    (h : planning desired current ctx = .ok p) {before after : List Planned} {e : Planned}
    (hsplit : p.planned = before ++ e :: after) :
    e ∈ clearOps current roleAdmission (staleCarriers current ctx) ∨
    ∃ sc ts t ts' clears parts front back, turns (sceneOf desired current ctx sc) = ts ++ t :: ts' ∧
      (∀ e' ∈ clears, e' ∈ clearOps current roleAdmission (staleCarriers current ctx)) ∧
      List.Forall₂ (TurnShape (sceneOf desired current ctx sc)) ts parts ∧
      TurnShape (sceneOf desired current ctx sc) t (front ++ e :: back) ∧
      before = clears ++ parts.flatten ++ front := by
  rcases planning_shape h with hnone | ⟨sc, es, _, ⟨parts, hparts, rfl⟩, hplanned⟩
  · rw [hnone] at hsplit
    simp at hsplit
  · rw [hplanned] at hsplit
    have hinto : ∀ front clears, parts.flatten = front ++ e :: after →
        before = clears ++ front →
        (∀ e' ∈ clears, e' ∈ clearOps current roleAdmission (staleCarriers current ctx)) →
        ∃ sc ts t ts' clears parts front back,
          turns (sceneOf desired current ctx sc) = ts ++ t :: ts' ∧
          (∀ e' ∈ clears, e' ∈ clearOps current roleAdmission (staleCarriers current ctx)) ∧
          List.Forall₂ (TurnShape (sceneOf desired current ctx sc)) ts parts ∧
          TurnShape (sceneOf desired current ctx sc) t (front ++ e :: back) ∧
          before = clears ++ parts.flatten ++ front := by
      intro front clears hflat hbefore hclears
      obtain ⟨parts₁, front', back, parts₂, rfl, rfl⟩ := flatten_split hflat
      obtain ⟨ts, t, ts', hturns, hts, ht⟩ := predecessor_split hparts
      exact ⟨sc, ts, t, ts', clears, parts₁, front', back, hturns, hclears, hts, ht,
        by rw [hbefore, List.append_assoc]⟩
    rcases List.append_eq_append_iff.mp hsplit with ⟨front, hbefore, hflat⟩ | ⟨rest, hclears, hrest⟩
    · exact Or.inr (hinto front _ hflat hbefore fun _ he => he)
    · cases rest with
      | nil =>
        rw [List.append_nil] at hclears
        exact Or.inr (hinto [] before hrest.symm (List.append_nil _).symm
          fun e' he' => hclears ▸ he')
      | cons x rest =>
        obtain ⟨rfl, _⟩ := List.cons.inj hrest
        exact Or.inl (by rw [hclears]; simp)

/-- An account that was read once has one turn to leave. -/
theorem leaver_once {s : Scene} (honce : (s.current.users.map Prod.fst).Nodup) {ts ts' : List Turn}
    {oid : Subject} (hturns : turns s = ts ++ .userLeaver oid :: ts') : .userLeaver oid ∉ ts := by
  have hall := congrArg (List.filterMap Turn.leaver) hturns
  rw [turns_leaver, List.filterMap_append, List.filterMap_cons] at hall
  have hnodup : (sortedOids s.current.users).Nodup :=
    (List.mergeSort_perm _ _).nodup_iff.mpr honce
  rw [hall] at hnodup
  intro hmem
  have hleaver : oid ∈ ts.filterMap Turn.leaver := List.mem_filterMap.mpr ⟨_, hmem, rfl⟩
  exact (List.nodup_append.mp hnodup).2.2 oid hleaver oid List.mem_cons_self rfl

/-- Until an operation of an account that leaves, no operation of the plan has moved it; and
what it gets is to be disabled, marked and freed of its grants, and last another name. -/
theorem leaver_unmoved {desired : Desired} {current : Current} {ctx : PlanCtx} {p : Planning}
    (h : planning desired current ctx = .ok p) (honce : (current.users.map Prod.fst).Nodup)
    {before after : List Planned} {e : Planned} (hsplit : p.planned = before ++ e :: after)
    {oid : Subject} (habout : e.about = ⟨.user, oid⟩) (hgone : oid ∉ desired.users) :
    ∃ sc cu, lookup current.users oid = some cu ∧
      (e.op.move = none → e.op ∈ leaveOps (sceneOf desired current ctx sc) cu) ∧
      e.op.dn = cu.dn ∧ ∀ e' ∈ before, e'.about = ⟨.user, oid⟩ → e'.op.move = none := by
  have hclear : ∀ e' ∈ clearOps current roleAdmission (staleCarriers current ctx),
      e'.about ≠ ⟨.user, oid⟩ := by
    intro e' he' habout
    obtain ⟨oid, _, hfound⟩ := List.mem_filterMap.mp he'
    obtain ⟨cg, _, rfl⟩ := Option.map_eq_some_iff.mp hfound
    cases habout
  rcases planned_split h hsplit with hmem | ⟨sc, ts, t, ts', clears, parts, front, back, hturns,
    hclears, hparts, ht, rfl⟩
  · exact absurd habout (hclear e hmem)
  · have hundesired : ∀ t' ∈ ts ++ t :: ts', ∀ entry, t' = Turn.user entry → entry.1 ≠ oid := by
      rintro t' ht' entry rfl rfl
      exact hgone (desired_of_turn (hturns ▸ ht'))
    have hmine : e ∈ front ++ e :: back := by simp
    rcases turn_of_user ht hmine habout with ⟨entry, rfl, hoid⟩ |
      ⟨rfl, _, cu, ops, hcu, hes, hops⟩
    · exact absurd hoid (hundesired _ (by simp) entry rfl)
    · have hsolo := leaver_once honce hturns
      have hop : e.op ∈ leaveOps (sceneOf desired current ctx sc) cu ∨
          ∃ cn sam, e.op = .rename cu.dn cn none (some sam)
            (upnOf (sceneOf desired current ctx sc) sam) := by
        rw [hes] at hmine
        obtain ⟨op, hop, rfl⟩ := List.mem_map.mp hmine
        rcases List.mem_append.mp hop with hop | hop
        · exact Or.inl hop
        · rcases hops with rfl | ⟨cn, sam, rfl⟩
          · cases hop
          · exact Or.inr ⟨cn, sam, List.mem_singleton.mp hop⟩
      refine ⟨sc, cu, hcu, ?_, ?_, ?_⟩
      · intro hstill
        refine hop.resolve_right ?_
        rintro ⟨cn, sam, hrename⟩
        rw [hrename] at hstill
        cases hstill
      · rcases hop with hop | ⟨cn, sam, hrename⟩
        · exact (leaveOps_at _ cu _ hop).1
        · rw [hrename]
          rfl
      · intro e' he' habout'
        rcases List.mem_append.mp he' with he' | he'
        · rcases List.mem_append.mp he' with he' | he'
          · exact absurd habout' (hclear e' (hclears e' he'))
          · -- An earlier turn is on another subject.
            obtain ⟨part, hpart, he'⟩ := List.mem_flatten.mp he'
            obtain ⟨t', ht', hshape⟩ := predecessor hparts hpart
            rcases turn_of_user hshape he' habout' with ⟨entry, rfl, hoid⟩ | ⟨rfl, _⟩
            · exact absurd hoid (hundesired _ (List.mem_append_left _ ht') entry rfl)
            · exact (hsolo ht').elim
        · -- The rename is the last of the turn.
          rw [plannedFor, List.map_append] at hes
          rcases List.append_eq_append_iff.mp hes with ⟨mid, hleave, hrest⟩ | ⟨mid, hfront, hrest⟩
          · have hmem : e' ∈ plannedFor ⟨.user, oid⟩ (leaveOps (sceneOf desired current ctx sc) cu) := by
              rw [plannedFor, hleave]
              exact List.mem_append_left _ he'
            exact leaveOps_still _ _ _ e' hmem
          · rw [hfront] at he'
            rcases List.mem_append.mp he' with he' | he'
            · exact leaveOps_still _ _ _ e' he'
            · have hlen := congrArg List.length hrest
              have hops' : ops.length ≤ 1 := by
                rcases hops with rfl | ⟨cn, sam, rfl⟩
                · exact Nat.zero_le _
                · exact Nat.le_refl _
              have hmid : 0 < mid.length := List.length_pos_of_mem he'
              simp at hlen
              omega

end Kerbridge.Planner

import Std.Data.ExtTreeMap
import Kerbridge.SamName

/-!
# The directory seam

What an adapter hands the mirror: a population keyed by its own subjects, or
the class of the failure that left the cycle without one. The closure walk from
the admission group and the held-narrowing live here, once for every adapter.
-/

namespace Kerbridge.DirectorySource

open UnicodeText SamName Std

/-- One IdP's own key for an account or a group, opaque above the seam. -/
abbrev Subject := String

/-- One group of the population. -/
structure DesiredGroup where
  /-- What the IdP shows. -/
  displayName : String
  deriving DecidableEq

/-- A group edge, as the two classes the realm mirrors. -/
inductive Membership where
  | user (subject : Subject)
  | group (subject : Subject)
  deriving DecidableEq

/-- An account an adapter's own rules turned away. -/
structure Refusal where
  /-- How to name the account on screen. -/
  who : String
  /-- Which rule turned it away. -/
  why : String
  deriving DecidableEq

/-- Every white-space separated token of a display name, joined by dots. -/
def dotted (displayName : String) : String := ".".intercalate (splitWhitespace displayName)

/-- The part of an address before the first at sign. -/
def localPart (address : String) : String := beforeFirst '@' address

/-- The group edges of one group, as the worklist pushes them. -/
def groupEdges (edges : ExtTreeMap Subject (List Membership)) (gid : Subject) : List Subject :=
  (edges[gid]?.getD []).filterMap fun
    | .group sub => some sub
    | .user _ => none

/-- The groups of the read the walk has not selected yet. -/
def remaining (groups : ExtTreeMap Subject DesiredGroup) (selected : List Subject) :
    List Subject :=
  groups.keys.filter fun k => !selected.contains k

/-- Selecting a group of the read leaves strictly fewer to select. -/
theorem remaining_select_lt {groups : ExtTreeMap Subject DesiredGroup} {selected : List Subject}
    {gid : Subject} (hg : gid ∈ groups) (hs : gid ∉ selected) :
    (remaining groups (gid :: selected)).length < (remaining groups selected).length := by
  have hsplit : remaining groups (gid :: selected) =
      (remaining groups selected).filter fun k => k != gid := by
    simp only [remaining, List.filter_filter, List.contains_cons, Bool.not_or]
    exact List.filter_congr fun k _ => rfl
  rw [hsplit, List.length_filter_lt_length_iff_exists]
  refine ⟨gid, ?_, by simp⟩
  simp only [remaining, List.mem_filter, List.contains_eq_mem, Bool.not_eq_true',
    decide_eq_false_iff_not]
  exact ⟨ExtTreeMap.mem_keys.mpr hg, hs⟩

/-- The worklist of the closure walk; the head of `todo` is the next pop. A
group is expanded once, and a subject the read has no group for is dropped. -/
def selectClosure (groups : ExtTreeMap Subject DesiredGroup)
    (edges : ExtTreeMap Subject (List Membership)) (selected : List Subject) :
    List Subject → List Subject
  | [] => selected
  | gid :: todo =>
    if gid ∈ selected ∨ gid ∉ groups then selectClosure groups edges selected todo
    else selectClosure groups edges (gid :: selected) ((groupEdges edges gid).reverse ++ todo)
  termination_by todo => ((remaining groups selected).length, todo.length)
  decreasing_by
    · exact Prod.Lex.right _ (Nat.lt_succ_self _)
    · rename_i hnew
      obtain ⟨hs, hg⟩ := not_or.mp hnew
      exact Prod.Lex.left _ _ (remaining_select_lt (not_not.mp hg) hs)

/-- Closure roots from one source's configuration. -/
structure Roots where
  /-- The group that admits people to the realm. -/
  admission : Subject
  /-- The device-grant group, if the deployment names one. -/
  grant : Option Subject
  /-- Additional closure roots. -/
  extra : List Subject

/-- The configured device-grant group is an extra root, not an admission root. -/
def Roots.new (admission : Subject) (grant : Option Subject) (allowlist : List Subject) : Roots :=
  ⟨admission, grant, allowlist ++ grant.toList⟩

/-- Why a cycle produced no snapshot, each with the sentence the operator sees. -/
inductive SourceError where
  | credential (why : String)
  | credentialRejected (why : String)
  | unreachable (why : String)
  | notWhole (why : String)
  deriving DecidableEq

variable [UnicodeTables]

/-- The character budget a login-name candidate is cut to. -/
def candidateChars : ℕ := 20

/-- A source string as the text of a login name, before the fallback test. -/
def candidateText (s : String) : String :=
  sanitize (String.ofList (UnicodeTables.nfc s.toList)) candidateChars maxBytes

/-- One string an account's login name may be minted from. It is constructible
only through `nameCandidate`, so the text is one the rule derives. -/
structure NameCandidate where
  /-- The derived name. -/
  text : String
  /-- Some source string yields it, and it is not the fallback. -/
  derived : ∃ s, candidateText s = text ∧ text ≠ fallback
  deriving DecidableEq

/-- `s` as a login name, or nothing when nothing usable survives. -/
def nameCandidate (s : String) : Option NameCandidate :=
  if h : candidateText s = fallback then none else some ⟨candidateText s, s, rfl, h⟩

/-- One account of the population. -/
structure DesiredUser where
  /-- What the IdP shows: `displayName`, and the CN built from it. -/
  displayName : String
  /-- What the login name may be minted from, best first. -/
  nameCandidates : List NameCandidate
  /-- Whether the IdP lets the account sign in. -/
  enabled : Bool
  deriving DecidableEq

/-- The population the realm should hold, iterated in subject order. -/
structure Desired where
  users : ExtTreeMap Subject DesiredUser
  groups : ExtTreeMap Subject DesiredGroup
  membership : ExtTreeMap Subject (List Subject)

/-- One adapter's whole reading of its IdP. -/
structure Enumeration where
  /-- Every account the adapter's own rules accept. -/
  users : ExtTreeMap Subject DesiredUser
  groups : ExtTreeMap Subject DesiredGroup
  membership : ExtTreeMap Subject (List Membership)
  /-- The accounts the adapter turned away. -/
  refused : ExtTreeMap Subject Refusal

/-- Members, held accounts and refusals gathered while the selected groups are
walked in subject order. -/
structure Narrowing where
  membership : ExtTreeMap Subject (List Subject) := {}
  groups : ExtTreeMap Subject DesiredGroup := {}
  /-- Accounts a selected group holds. -/
  held : List Subject := []
  /-- Held accounts the adapter turned away, as sentences. -/
  refused : List String := []

/-- What one edge of a selected group contributes. An absent account is not
reported: that is ordinary delta ordering, not a decision. -/
def narrowEdge (read : Enumeration) (selected : List Subject) (mm : List Subject)
    (n : Narrowing) : Membership → List Subject × Narrowing
  | .user sub =>
    if sub ∈ read.users then (mm ++ [sub], { n with held := sub :: n.held })
    else
      match read.refused[sub]? with
      | some r =>
        (mm, { n with refused := n.refused ++
          ["user " ++ r.who ++ " is held by a selected group but gets no account: " ++ r.why] })
      | none => (mm, n)
  | .group sub => if sub ∈ selected then (mm ++ [sub], n) else (mm, n)

/-- One selected group: its edges in order, then the group itself. -/
def narrowGroup (read : Enumeration) (selected : List Subject) (n : Narrowing)
    (gid : Subject) : Narrowing :=
  let walked := (read.membership[gid]?.getD []).foldl
    (fun acc m => narrowEdge read selected acc.1 acc.2 m) ([], n)
  { walked.2 with
    groups := walked.2.groups.insert gid (read.groups[gid]?.getD ⟨""⟩)
    membership := walked.2.membership.insert gid walked.1 }

/-- Turns one adapter's reading into the desired state and the refusals that
shaped it. -/
def buildDesired (read : Enumeration) (admission : Subject) (allowlist : List Subject) :
    Desired × List String :=
  let selected := selectClosure read.groups read.membership [] (admission :: allowlist).reverse
  let order := (selected.mergeSort (fun a b => decide (a ≤ b)))
  let narrowed := order.foldl (narrowGroup read selected) {}
  let users := read.users.filter fun sub _ => decide (sub ∈ narrowed.held)
  (⟨users, narrowed.groups, narrowed.membership⟩,
    narrowed.refused.mergeSort (fun a b => decide (a ≤ b)))

/-- One cycle's whole reading of a tenant. -/
structure SourceSnapshot where
  desired : Desired
  admission : Subject
  grant : Option Subject
  /-- Who the adapter's own rules left out, and why. -/
  refused : List String

/-- The snapshot the closure roots cut out of a reading. -/
def Roots.narrow (roots : Roots) (read : Enumeration) : SourceSnapshot :=
  let built := buildDesired read roots.admission roots.extra
  ⟨built.1, roots.admission, roots.grant, built.2⟩

/-- What one advance of a source concluded. -/
inductive Progress where
  /-- A whole enumeration, observed in one uninterrupted read. -/
  | complete (snapshot : SourceSnapshot)
  /-- No credential yet; not a fault. -/
  | idle (why : String)

end Kerbridge.DirectorySource

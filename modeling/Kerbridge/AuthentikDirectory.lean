import Mathlib.Data.String.Basic
import Mathlib.Data.Int.Order.Basic
import Kerbridge.DirectorySource
import Kerbridge.Fallible
import Kerbridge.StoredIdentity

/-!
# The authentik source

A whole read of one instance, page by page, with no delta and no shadow. Page
numbers cannot prove a read complete, so the assembly checks what it can: the
order of the keys, the counts the pages report, and that no edge dangles. JSON
decoding is library code and enters as parameters. Sleeps and the headroom of the
credential are not modelled.
-/

namespace Kerbridge.AuthentikDirectory

open Std (ExtTreeMap)
open UnicodeText DirectorySource Fallible StoredIdentity

/-- The bytes of a body. -/
abbrev Bytes := List UInt8

/-- The page-number cursor beside every list. -/
structure Pagination where
  /-- The next page number, or zero on the terminating page. -/
  next : ℤ
  /-- The count of the whole collection, repeated on every page. -/
  count : ℤ
  deriving DecidableEq

/-- One page of a list read. -/
structure Page (α : Type) where
  pagination : Pagination
  results : List α

/-- A users row, cut to what the read consumes. -/
structure RawUser where
  /-- What a group names its members by, and what the read is ordered by. -/
  pk : ℤ
  username : String
  /-- The display name, empty on an account that never set one. -/
  name : String
  isActive : Bool
  /-- Every group this user is a direct member of. -/
  groups : List String := []
  email : String := ""
  /-- The stored subject. -/
  uuid : String
  deriving DecidableEq

/-- A groups row, cut to what the read consumes. -/
structure RawGroup where
  /-- The group's uuid, and what the read is ordered by. -/
  pk : String
  name : String
  /-- The keys of the direct member users. -/
  users : List ℤ := []
  /-- The uuids of the direct child groups. -/
  children : List String := []
  deriving DecidableEq

/-- The library code a read goes through. -/
class Libraries where
  /-- The JSON decoder at a users page. -/
  usersPage : Bytes → Except String (Page RawUser)
  /-- The JSON decoder at a groups page. -/
  groupsPage : Bytes → Except String (Page RawGroup)
  /-- The JSON decoder at the `detail` of an error body, empty when there is none. -/
  detailOf : Bytes → String

/-- One answer of the instance. -/
structure Response where
  status : ℕ
  body : Bytes

/-- What meets one turn of the read loop. -/
structure Exchange where
  /-- No page has arrived for the stall limit. -/
  stalled : Bool := false
  /-- The answer, or why none came. -/
  answer : Except String Response

/-- One page's outcome. -/
inductive PageOutcome (α : Type) where
  | ready (page : Page α)
  /-- Reachability trouble, never a verdict on the data. -/
  | retry (why : String)
  /-- The credential was rejected. -/
  | rejected (why : String)
  /-- The read was refused for a reason that must be loud. -/
  | refused (why : String)

/-- The pages one collection read may take. -/
def maxPages : ℕ := 10000

/-- The page to ask for after the one just read, nothing once the read is whole, or
the reason it is not. -/
def nextPage (pageNum next : ℤ) (read : ℕ) (what : String) : Except String (Option ℤ) :=
  if next = 0 then .ok none
  else if next ≤ pageNum then
    .error ("torn " ++ what ++ " read: page " ++ toString pageNum ++ " points at page " ++
      toString next ++ ", which does not advance --              following it would ask for " ++
      "the same page forever")
  else if maxPages ≤ read then
    .error ("torn " ++ what ++ " read: " ++ toString read ++ " pages in and the cursor still " ++
      "advances, past the              " ++ toString maxPages ++
      "-page ceiling a read is bounded by")
  else .ok (some next)

/-- The rows gathered over the pages so far. -/
structure Collected (κ α : Type) where
  /-- What the page before counted. -/
  prevCount : Option ℤ := none
  /-- The key of the row before. -/
  lastKey : Option κ := none
  rows : List α := []

section Ordered

variable {κ α : Type} [LinearOrder κ]

/-- One more row, refused unless its key sorts after the one before. -/
def collectRow (key : α → κ) (shown : κ → String) (what : String) (c : Collected κ α) (row : α) :
    Except String (Collected κ α) :=
  let this := key row
  let kept : Collected κ α := { c with lastKey := some this, rows := c.rows ++ [row] }
  match c.lastKey with
  | none => .ok kept
  | some last =>
    if this ≤ last then
      .error ("torn " ++ what ++ " read: pk " ++ shown this ++ " does not sort after " ++
        shown last ++ " under ?ordering=pk, so a row was inserted or repeated between pages")
    else .ok kept

/-- One more page, refused when it counts fewer than the page before. -/
def collectPage (key : α → κ) (shown : κ → String) (what : String) (c : Collected κ α)
    (page : Page α) : Except String (Collected κ α) :=
  let count := page.pagination.count
  let rows := page.results.foldlM (collectRow key shown what) { c with prevCount := some count }
  match c.prevCount with
  | none => rows
  | some prev =>
    if count < prev then
      .error ("torn " ++ what ++ " read: a page counts " ++ toString count ++
        " where an earlier page counted " ++ toString prev ++
        ", so an object was deleted mid-read and a row can fall between the pages")
    else rows

/-- A collection's rows across its pages, or how the read is torn or truncated. -/
def ordered (key : α → κ) (shown : κ → String) (what : String) (pages : List (Page α)) :
    Except String (List α) := do
  let c ← pages.foldlM (collectPage key shown what) {}
  match c.prevCount with
  | none => .ok c.rows
  | some count =>
    if (c.rows.length : ℤ) ≠ count then
      .error ("truncated " ++ what ++ " read: " ++ toString c.rows.length ++ " row(s) across " ++
        toString pages.length ++ " page(s), where the last page counts " ++ toString count)
    else .ok c.rows

end Ordered

section Client

variable [Libraries] [UnicodeTables]

/-- One answer as a page's outcome. The `detail` tells a dead credential from a
missing grant. -/
def classify {α : Type} (decode : Bytes → Except String (Page α)) (r : Response) :
    PageOutcome α :=
  if r.status = 200 then
    match decode r.body with
    | .ok page => .ready page
    | .error e => .retry ("a 200 whose body is not a IdP directory page: " ++ e)
  else if r.status = 403 then
    let detail := Libraries.detailOf r.body
    if detail = "Token invalid/expired" then
      .rejected ("authentik rejected the sync credential (403 " ++ UnicodeTables.debug detail ++
        "): the token is dead and rotates on expiry, so this will not heal until it is replaced")
    else
      .refused ("authentik refused the IdP directory read (403 " ++ UnicodeTables.debug detail ++
        "): the read is refused, not emptied, so this is a failure rather than an empty IdP " ++
        "directory")
  else if 500 ≤ r.status then
    .retry ("authentik answered " ++ toString r.status ++ ": a 5xx is reachability, not a " ++
      "verdict on the credential or the data")
  else .refused ("authentik answered an unexpected " ++ toString r.status)

/-- What one turn of the loop makes of the exchange. -/
def outcome {α : Type} (decode : Bytes → Except String (Page α)) (what : String) (pageNum : ℤ)
    (e : Exchange) : PageOutcome α :=
  match e.answer with
  | .ok r => classify decode r
  | .error why => .retry ("GET " ++ what ++ " page " ++ toString pageNum ++ ": " ++ why)

/-- The sentence of an abandoned read. -/
def abandoned (what why : String) : SourceError :=
  .unreachable (what ++ " read abandoned: no page arrived for long enough to call the read " ++
    "stalled -- " ++ why)

/-- The loop of a whole read, over what the network does from here on. A read that
nothing more reaches is abandoned as stalled. -/
def readLoop {α : Type} (decode : Bytes → Except String (Page α)) (what : String)
    (pages : List (Page α)) (pageNum : ℤ) : List Exchange → Except SourceError (List (Page α))
  | [] => .error (abandoned what "")
  | e :: rest =>
    match outcome decode what pageNum e with
    | .ready page =>
      match nextPage pageNum page.pagination.next (pages.length + 1) what with
      | .error why => .error (.notWhole why)
      | .ok none => .ok (pages ++ [page])
      | .ok (some n) => readLoop decode what (pages ++ [page]) n rest
    | .rejected why => .error (.credentialRejected why)
    | .refused why => .error (.credential why)
    | .retry why =>
      if e.stalled then .error (abandoned what why)
      else readLoop decode what pages pageNum rest

/-- The users collection, read whole. -/
def readUsers (net : List Exchange) : Except SourceError (List (Page RawUser)) :=
  readLoop Libraries.usersPage "users" [] 1 net

/-- The groups collection, read whole. -/
def readGroups (net : List Exchange) : Except SourceError (List (Page RawGroup)) :=
  readLoop Libraries.groupsPage "groups" [] 1 net

end Client

section Tables

variable [UnicodeTables]

/-- The strings an account's login name may be minted from, best first, without
those that come to one already held. -/
def nameCandidates (u : RawUser) : List NameCandidate :=
  [u.username, dotted u.name, localPart u.email].foldl
    (fun out raw =>
      match nameCandidate raw with
      | some candidate =>
        if out.any fun held => held.text == candidate.text then out else out ++ [candidate]
      | none => out) []

/-- A users row, as the population names the account. -/
def desiredUser (u : RawUser) : DesiredUser := ⟨u.name, nameCandidates u, u.isActive⟩

/-- A users row entered, under its uuid and under its key. -/
def assembleUser (acc : ExtTreeMap ℤ Subject × Enumeration) (u : RawUser) :
    Except String (ExtTreeMap ℤ Subject × Enumeration) :=
  if !isGuid u.uuid then
    .error ("user " ++ UnicodeTables.debug u.username ++ " (pk " ++ toString u.pk ++
      ") carries a uuid that is not canonical lowercase (" ++ UnicodeTables.debug u.uuid ++
      "): UUIDField serializes every row the same way, so this is a whole-population " ++
      "serialization change, and refusing one account would retire the rest in silence")
  else
    .ok (acc.1.insert u.pk u.uuid,
      { acc.2 with users := acc.2.users.insert u.uuid (desiredUser u) })

/-- Every group a users row names is one of the read. -/
def checkUserGroups (groupIds : List String) (u : RawUser) : Except String Unit :=
  u.groups.forM fun gid =>
    if gid ∈ groupIds then .ok ()
    else .error ("user " ++ UnicodeTables.debug u.username ++ " names group " ++
      UnicodeTables.debug gid ++
      ", which no group page returned: a complete read has no dangling ids")

/-- The edge to a member user, by its key. -/
def memberEdge (byPk : ExtTreeMap ℤ Subject) (g : RawGroup) (member : ℤ) :
    Except String Membership :=
  match byPk[member]? with
  | some user => .ok (.user user)
  | none => .error ("group " ++ UnicodeTables.debug g.name ++ " names member user pk " ++
      toString member ++ ", which no user page returned: a complete read has no dangling ids")

/-- The edge to a child group. -/
def childEdge (groupIds : List String) (g : RawGroup) (child : String) :
    Except String Membership :=
  if child ∈ groupIds then .ok (.group child)
  else .error ("group " ++ UnicodeTables.debug g.name ++ " names child group " ++
    UnicodeTables.debug child ++
    ", which no group page returned: a complete read has no dangling ids")

/-- A groups row entered, with its members before its child groups. -/
def assembleGroup (byPk : ExtTreeMap ℤ Subject) (groupIds : List String) (read : Enumeration)
    (g : RawGroup) : Except String Enumeration := do
  let members ← g.users.mapM (memberEdge byPk g)
  let children ← g.children.mapM (childEdge groupIds g)
  return { read with
    groups := read.groups.insert g.pk ⟨g.name⟩
    membership := read.membership.insert g.pk (members ++ children) }

/-- One whole read as an enumeration, or why the read is not whole. -/
def assemble (users : List (Page RawUser)) (groups : List (Page RawGroup)) :
    Except String Enumeration := do
  let userRows ← ordered RawUser.pk toString "user" users
  let groupRows ← ordered RawGroup.pk UnicodeTables.debug "group" groups
  let groupIds := groupRows.map RawGroup.pk
  let (byPk, read) ← userRows.foldlM assembleUser ({}, ⟨{}, {}, {}, {}⟩)
  userRows.forM (checkUserGroups groupIds)
  groupRows.foldlM (assembleGroup byPk groupIds) read

/-- Narrows one enumeration, only when every configured root is visible but the
admission root, whose absence the planner answers. -/
def completeSnapshot (read : Enumeration) (roots : Roots) : Except String SourceSnapshot :=
  let missing := roots.extra.filter fun root => decide (root ∉ read.groups)
  if missing ≠ [] then
    .error ("configured authentik group root(s) absent from the read: " ++
      ", ".intercalate missing ++ "; the credential may have returned a coherent " ++
      "object-filtered subset, so no snapshot was published")
  else .ok (roots.narrow read)

end Tables

/-- One configured instance. -/
structure AuthentikSource where
  /-- The source's configured name. -/
  source : String
  /-- The path of the credential file, as printed. -/
  credentialFile : String
  /-- The group that admits people to the realm. -/
  admissionGroupId : String
  grantGroupId : Option String := none
  /-- Groups to mirror beyond the admission closure. -/
  allowlist : List String := []

/-- Everything one cycle meets. -/
structure Cycle where
  /-- What reading the credential file gives. -/
  credential : Except String (Option String)
  /-- Whether the HTTP client was built. -/
  client : Except String Unit := .ok ()
  users : List Exchange
  groups : List Exchange

/-- The closure roots of the configuration. -/
def AuthentikSource.roots (s : AuthentikSource) : Roots :=
  .new s.admissionGroupId s.grantGroupId s.allowlist

section Advance

variable [Libraries] [UnicodeTables]

/-- Both collections, the groups only after the users. -/
def readBoth (c : Cycle) : Except SourceError (List (Page RawUser) × List (Page RawGroup)) := do
  let users ← readUsers c.users
  let groups ← readGroups c.groups
  return (users, groups)

/-- One cycle: the credential, the client, both reads, then the assembly. -/
def AuthentikSource.advance (s : AuthentikSource) (c : Cycle) : Except SourceError Progress :=
  match c.credential with
  | .error why => .error (.credential ("credential unreadable: " ++ why))
  | .ok none =>
    .ok (.idle ("no sync credential in " ++ s.credentialFile ++ ": source " ++ s.source ++
      " is idle until one appears"))
  | .ok (some _) =>
    match c.client with
    | .error why => .error (.unreachable ("authentik client: " ++ why))
    | .ok () => do
      let pages ← readBoth c
      let read ← (assemble pages.1 pages.2).mapError .notWhole
      let snapshot ← (completeSnapshot read s.roots).mapError .notWhole
      return .complete snapshot

end Advance

end Kerbridge.AuthentikDirectory

import Kerbridge.EntraShadow

/-!
# The Graph delta client

One delta stream, read page by page until its delta link, over whatever the
network answers. URL parsing and JSON decoding are library code and enter as
parameters. Sleeps are not modelled: only whether the read had stalled when it
looked.
-/

namespace Kerbridge.GraphClient

open UnicodeText EntraShadow

/-- The bytes of a body. -/
abbrev Bytes := List UInt8

/-- What the URL parser reads out of an absolute URL. -/
structure Url where
  scheme : String
  host : Option String
  /-- A port other than the scheme's own. -/
  port : Option ℕ
  path : String
  /-- The query as written. -/
  query : Option String
  /-- The query's parameters, decoded. -/
  queryPairs : List (String × String)
  deriving DecidableEq

/-- A page of a delta read. The next link continues it, the delta link ends it. -/
structure Page (α : Type) where
  nextLink : Option String := none
  deltaLink : Option String := none
  value : List α := []

/-- The library code a read goes through. -/
class Libraries where
  /-- `Url::parse`. -/
  parse : String → Option Url
  /-- A URL's text with its query replaced. -/
  withQuery : String → String → String
  /-- A body as text, invalid UTF-8 replaced. -/
  lossy : Bytes → String
  /-- The JSON decoder at a users page. -/
  usersPage : Bytes → Except String (Page RawUser)
  /-- The JSON decoder at a groups page. -/
  groupsPage : Bytes → Except String (Page RawGroup)

/-- One answer of the service. -/
structure Response where
  status : ℕ
  retryAfter : Option ℕ := none
  location : Option String := none
  body : Bytes := []

/-- What meets one turn of the read loop. -/
inductive Exchange where
  /-- No page has arrived for the stall limit. -/
  | stalled
  /-- The request was sent and no whole answer came back. -/
  | lost (why : String)
  | answered (r : Response)

/-- Why a stream read failed. -/
inductive Fault where
  /-- The service refused the request itself. -/
  | authRefused (status : ℕ) (detail : String)
  | other (why : String)
  deriving DecidableEq

/-- A whole stream, or the signal that it must be handled specially. -/
inductive StreamResult (α : Type) where
  | complete (items : List α) (deltaLink : Option String)
  /-- The cursor expired. -/
  | resync
  /-- The stored cursor is corrupt. -/
  | cursorCorrupt
  | stalled

/-- What one answer means to the loop. -/
inductive Outcome (α : Type) where
  | page (p : Page α)
  | throttled (retryAfter : Option ℕ)
  | resync
  | cursorCorrupt
  | transient

/-- The sentence a refused read is reported by. -/
def authRefusedText (status : ℕ) (detail : String) : String :=
  (if status = 401 then
    "Graph rejected the access token; a token is short-lived, so the next cycle's own " ++
      "token normally clears this"
  else
    "Graph refused the read; grant the application User.Read.All and Group.Read.All, " ++
      "then give admin consent") ++
    " (HTTP " ++ toString status ++ ": " ++ detail ++ ")"

/-- The service's base URL. -/
def graph : String := "https://graph.microsoft.com/v1.0"

/-- The user properties a read asks for. -/
def userSelect : String :=
  "id,displayName,userPrincipalName,mail,otherMails,accountEnabled,userType"

/-- The group properties a read asks for. -/
def groupSelect : String := "id,displayName,members"

/-- One query parameter, with a value that may be a cursor elided. -/
def redactPair (pair : String) : String :=
  match splitOnce '=' pair with
  | some (k, _) =>
    if "token".toList.isSuffixOf (k.toList.map Char.toLower) then k ++ "=..." else pair
  | none => pair

variable [Libraries]

/-- A URL with its cursor values elided. -/
def redact (raw : String) : String :=
  match Libraries.parse raw with
  | none => raw
  | some url =>
    match url.query with
    | none => raw
    | some query =>
      Libraries.withQuery raw ("&".intercalate ((split '&' query).map redactPair))

/-- Refuses to send the token anywhere but to the service. -/
def assertGraphUrl (raw : String) : Except Fault Unit :=
  let refuse := Fault.other
    ("refusing to send the Graph token to " ++ redact raw ++ ", which is not Graph")
  match Libraries.parse raw with
  | none => .error refuse
  | some url =>
    if url.scheme = "https" ∧ url.host = some "graph.microsoft.com" ∧ url.port = none ∧
        (url.path = "/v1.0" ∨ startsWith url.path "/v1.0/" = true) then .ok ()
    else .error refuse

/-- Whether a URL carries a cursor there would be any point in discarding. -/
def carriesCursor (raw : String) : Bool :=
  match Libraries.parse raw with
  | none => false
  | some url => url.queryPairs.any fun p => p.1 == "$deltatoken" || p.1 == "$skiptoken"

/-- Reads one answer by its status. -/
def classify {α : Type} (decode : Bytes → Except String (Page α)) (r : Response)
    (cursor : Bool) : Except Fault (Outcome α) :=
  if r.status = 200 then
    match decode r.body with
    | .ok p => .ok (.page p)
    | .error e => .error (.other ("parsing Graph page: " ++ e))
  else if r.status = 429 then .ok (.throttled r.retryAfter)
  else if r.status = 410 then
    match r.location with
    | some _ => .ok .resync
    | none => .error (.other "410 Gone without a Location header")
  else if r.status = 400 ∧ cursor = true then .ok .cursorCorrupt
  else if r.status = 401 ∨ r.status = 403 then
    .error (.authRefused r.status (Libraries.lossy r.body))
  else if 500 ≤ r.status ∧ r.status ≤ 599 then .ok .transient
  else .error (.other
    ("unexpected Graph status " ++ toString r.status ++ ": " ++ Libraries.lossy r.body))

/-- The read loop, over what the network does from here on. A read that nothing
more reaches is abandoned as stalled. -/
def readStream {α : Type} (decode : Bytes → Except String (Page α)) (items : List α)
    (url : String) : List Exchange → Except Fault (StreamResult α)
  | [] => .ok .stalled
  | .stalled :: _ => .ok .stalled
  | .lost why :: _ => do
    assertGraphUrl url
    .error (.other why)
  | .answered r :: rest => do
    assertGraphUrl url
    match ← classify decode r (carriesCursor url) with
    | .page p =>
      match p.nextLink with
      | some next => readStream decode (items ++ p.value) next rest
      | none => .ok (.complete (items ++ p.value) p.deltaLink)
    | .throttled _ => readStream decode items url rest
    | .transient => readStream decode items url rest
    | .resync => .ok .resync
    | .cursorCorrupt => .ok .cursorCorrupt

/-- The users stream, from a stored cursor or from a fresh delta. -/
def readUsers (cursor : Option String) (net : List Exchange) :
    Except Fault (StreamResult RawUser) :=
  readStream Libraries.usersPage []
    (cursor.getD (graph ++ "/users/delta?$select=" ++ userSelect)) net

/-- The groups stream, membership edges included. -/
def readGroups (cursor : Option String) (net : List Exchange) :
    Except Fault (StreamResult RawGroup) :=
  readStream Libraries.groupsPage []
    (cursor.getD (graph ++ "/groups/delta?$select=" ++ groupSelect)) net

end Kerbridge.GraphClient

import Kerbridge.StoredIdentity

/-!
# The device-grant value

One directory value that lets a key stand in for a browser sign-in until a
stamped time: its encoding, its parser, and the short handle an operator reads.
-/

namespace Kerbridge.DeviceGrants

open UnicodeText StoredIdentity

/-- Version tag and delimiter. -/
def grantPrefix : String := "kbkey1|"

/-- The algorithms a grant may name. -/
inductive Algorithm where
  | es256
  deriving DecidableEq

/-- The key name of an algorithm. -/
def Algorithm.name : Algorithm → String
  | .es256 => "es256"

/-- Length of a digest in unpadded base64url. -/
def thumbprintLen : ℕ := 43

/-- Escaped label ceiling, in bytes. -/
def maxLabel : ℕ := 96

/-- One device grant, decoded. The label is held unescaped. -/
structure DeviceGrant where
  label : String
  alg : Algorithm
  thumbprint : String
  start : ℕ
  /-- The stamped deadline. -/
  stop : ℕ
  /-- Last use, absent until the grant has been used. -/
  seen : Option ℕ
  deriving DecidableEq

/-- Why a value is no grant. -/
inductive GrantError where
  | notAGrant
  | notAField
  | duplicate
  | algorithms (n : ℕ)
  | missing (key : String)
  | badValue (key : String)
  | badEscape
  deriving DecidableEq

/-- The value of a base64url character. -/
def b64urlValue (c : Char) : Option ℕ :=
  if 'A' ≤ c ∧ c ≤ 'Z' then some (c.toNat - 65)
  else if 'a' ≤ c ∧ c ≤ 'z' then some (c.toNat - 97 + 26)
  else if '0' ≤ c ∧ c ≤ '9' then some (c.toNat - 48 + 52)
  else if c = '-' then some 62
  else if c = '_' then some 63
  else none

/-- Exactly an unpadded base64url digest. -/
def isThumbprint (s : String) : Bool :=
  decide (s.utf8ByteSize = thumbprintLen) && s.toList.all fun c => (b64urlValue c).isSome

/-- This build's own spelling of an algorithm name. -/
def algorithm (s : String) : Option Algorithm :=
  if s = Algorithm.es256.name then some .es256 else none

/-- One hexadecimal digit, in lowercase. -/
def hexDigitOf (n : ℕ) : Char := if n < 10 then Char.ofNat (48 + n) else Char.ofNat (87 + n)

/-- A number in hexadecimal, padded to a width. -/
def hexOf : ℕ → ℕ → List Char
  | 0, _ => []
  | width + 1, n => hexOf width (n / 16) ++ [hexDigitOf (n % 16)]

/-- The 36 bits six base64url characters carry. -/
def sextets (cs : List Char) : Option ℕ :=
  cs.foldlM (fun acc c => (b64urlValue c).map fun v => 64 * acc + v) 0

/-- The operator's handle for a thumbprint: its digest's first four bytes in
hexadecimal, out of the first six characters. A thumbprint is ASCII, so the
first six characters are its first six bytes. -/
def shortId (thumbprint : String) : Option String :=
  if thumbprint.utf8ByteSize < 6 then none
  else (sextets (thumbprint.toList.take 6)).map fun acc =>
    String.ofList (hexOf 8 (acc / 16 % 0x100000000))

/-- The handle of a grant. -/
def DeviceGrant.shortId (g : DeviceGrant) : String := (DeviceGrants.shortId g.thumbprint).getD ""

/-- A grant as it is stored. -/
def DeviceGrant.encode (g : DeviceGrant) : String :=
  grantPrefix ++ "label=" ++ escapeField g.label ++ "|" ++ g.alg.name ++ "=" ++ g.thumbprint ++
    "|start=" ++ toString g.start ++ "|end=" ++ toString g.stop ++
    match g.seen with
    | some seen => "|seen=" ++ toString seen
    | none => ""

/-- A stamp, in seconds since the epoch. -/
def epoch (raw key : String) : Except GrantError ℕ :=
  match parseUnsigned (0x10000000000000000) raw with
  | some n => .ok n
  | none => .error (.badValue key)

/-- The fields read so far. -/
structure Fields where
  label : Option String := none
  alg : Option (Algorithm × String) := none
  start : Option ℕ := none
  stop : Option ℕ := none
  seen : Option ℕ := none
  keys : List String := []

/-- One field of a stored value. -/
def readField (f : Fields) (field : String) : Except GrantError Fields :=
  match splitOnce '=' field with
  | none => .error .notAField
  | some (key, raw) =>
    if key ∈ f.keys then .error .duplicate
    else
      let f := { f with keys := f.keys ++ [key] }
      match algorithm key with
      | some known =>
        if f.alg.isSome then .error (.algorithms 2)
        else if !isThumbprint raw then .error (.badValue "thumbprint")
        else .ok { f with alg := some (known, raw) }
      | none =>
        if key = "label" then
          match unescapeField raw with
          | .error _ => .error .badEscape
          | .ok text =>
            if text.toList.any isControl then .error (.badValue "label")
            else .ok { f with label := some text }
        else if key = "start" then (epoch raw "start").map fun n => { f with start := some n }
        else if key = "end" then (epoch raw "end").map fun n => { f with stop := some n }
        else if key = "seen" then (epoch raw "seen").map fun n => { f with seen := some n }
        else .ok f

/-- A stored value parsed back. Anything malformed is an error. -/
def DeviceGrant.decode (value : String) : Except GrantError DeviceGrant :=
  match stripPrefix value grantPrefix with
  | none => .error .notAGrant
  | some payload => do
    let f ← (split '|' payload).foldlM readField {}
    match f.alg, f.start, f.stop with
    | none, _, _ => .error (.algorithms 0)
    | some _, none, _ => .error (.missing "start")
    | some _, some _, none => .error (.missing "end")
    | some (alg, thumbprint), some start, some stop =>
      .ok ⟨f.label.getD "", alg, thumbprint, start, stop, f.seen⟩

/-- The deadline once the operator's setting has clamped it. -/
def DeviceGrant.effectiveEnd (g : DeviceGrant) (grantDays : ℕ) : ℕ :=
  min g.stop (min (g.start + grantDays * 86400) (0xFFFFFFFFFFFFFFFF))

/-- Whether the setting moved the deadline in below the stamped one. -/
def DeviceGrant.clamped (g : DeviceGrant) (grantDays : ℕ) : Bool :=
  decide (g.effectiveEnd grantDays < g.stop)

/-- Whether a grant still works. -/
def DeviceGrant.validAt (g : DeviceGrant) (now grantDays : ℕ) : Bool :=
  decide (now < g.effectiveEnd grantDays)

/-- The copying loop of `sanitizeLabel`, within the escaped budget. -/
def sanitizeLabelLoop (out : List Char) (escaped : ℕ) : List Char → List Char
  | [] => out
  | c :: rest =>
    if isControl c then sanitizeLabelLoop out escaped rest
    else
      let cost := if c = '%' ∨ c = '|' then 3 else c.utf8Size
      if maxLabel < escaped + cost then out
      else sanitizeLabelLoop (out ++ [c]) (escaped + cost) rest

/-- A label reduced to something safe to store and to print. -/
def sanitizeLabel (raw : String) : String := String.ofList (sanitizeLabelLoop [] 0 raw.toList)

/-- Whether an exchange writes a new stamp of use. -/
def needsTouch (seen : Option ℕ) (now : ℕ) : Bool :=
  match seen with
  | none => true
  | some seen => decide (now / 86400 ≠ seen / 86400) || decide (12 * 3600 ≤ now - seen)

/-- Only a value with the grant prefix is read as a grant. -/
theorem startsWith_of_decode {v : String} {g : DeviceGrant} (h : DeviceGrant.decode v = .ok g) :
    startsWith v grantPrefix = true := by
  unfold DeviceGrant.decode at h
  cases hp : stripPrefix v grantPrefix with
  | none => simp [hp] at h
  | some payload =>
    unfold stripPrefix at hp
    split at hp
    · rename_i hprefix
      exact hprefix
    · cases hp

end Kerbridge.DeviceGrants

import Kerbridge.DistinguishedName
import Kerbridge.Fallible
import Mathlib.Data.List.Sort

/-!
# The configuration set

Loading and cross-checking the files of one deployment, up to the sources and
the organizational unit each of them owns. The files are parsed elsewhere: a
parameter says what each of them reads as.
-/

namespace Kerbridge.ConfigSet

open UnicodeText DistinguishedName Fallible

/-- Uppercase mapping of one character, which may expand to several. On ASCII it is
the ASCII mapping. -/
class UppercaseTable where
  toUppercase : Char → List Char
  ascii : ∀ c : Char, c.toNat < 128 → toUppercase c = [c.toUpper]

/-- `str::to_uppercase`. -/
def toUppercase [UppercaseTable] (s : String) : String :=
  String.ofList (s.toList.flatMap UppercaseTable.toUppercase)

/-- The table that leaves every other character alone. -/
@[reducible] def asciiUppercase : UppercaseTable where
  toUppercase c := [c.toUpper]
  ascii _ _ := rfl

/-- An error under its contexts, the outermost first. -/
abbrev Trail := List String

/-- A failure said with where it happened. -/
def withContext {α : Type} (context : String) (x : Except Trail α) : Except Trail α :=
  x.mapError (context :: ·)

/-- What is true of the realm whichever tool fronts it. -/
structure Realm where
  realm : String
  baseDn : Option String
  adDnsDomain : Option String
  netbiosDomain : Option String
  dcHostname : Option String
  idpParentOu : Option String
  ldapUrl : String
  deriving DecidableEq

/-- The operator tool's own file, of which the load reads the address. -/
structure Kbmanage where
  ldapUrl : Option String
  deriving DecidableEq

/-- One source's file: its name and the unit it states, if any. -/
structure SourceFile where
  name : String
  statedOu : Option String
  deriving DecidableEq

/-- The entry point: the sources that are served. -/
structure Main where
  sources : List String
  deriving DecidableEq

section Names

variable [UnicodeTables] [UppercaseTable]

/-- The base name of a realm, one component a label. -/
def baseDnFor (realm : String) : String :=
  ",".intercalate ((split '.' (toLowercase realm)).map fun label => "DC=" ++ label)

omit [UnicodeTables] [UppercaseTable] in
/-- The unit holding one unit per source. -/
def idpParentOuFor (baseDn : String) : String := "OU=CloudIdP," ++ baseDn

/-- The domain root, derived unless the file states one. -/
def Realm.baseDnOf (r : Realm) : String := r.baseDn.getD (baseDnFor r.realm)

/-- The suffix of a user's principal name. -/
def Realm.adDnsDomainOf (r : Realm) : String := r.adDnsDomain.getD (toLowercase r.realm)

/-- The parent of every source's unit. -/
def Realm.idpParentOuOf (r : Realm) : String := r.idpParentOu.getD (idpParentOuFor r.baseDnOf)

omit [UnicodeTables] in
/-- The flat name of the domain: the first label, never cut short. -/
def Realm.netbiosDomainOf (r : Realm) : String :=
  r.netbiosDomain.getD (toUppercase (beforeFirst '.' r.realm))

omit [UnicodeTables] [UppercaseTable] in
/-- The host of the address, without the scheme, the port and an address's brackets. -/
def Realm.ldapHost (r : Realm) : String :=
  let afterScheme := ((splitOnceOn "//" r.ldapUrl).map Prod.snd).getD r.ldapUrl
  let authority := beforeFirst '/' afterScheme
  match stripPrefix authority "[" with
  | some v6 => beforeFirst ']' v6
  | none => beforeFirst ':' authority

omit [UnicodeTables] [UppercaseTable] in
/-- The short name of the domain controller. -/
def Realm.dcHostnameOf (r : Realm) : String := r.dcHostname.getD (beforeFirst '.' r.ldapHost)

omit [UnicodeTables] in
/-- The first character uppercased. -/
def titleCase (name : String) : String :=
  match name.toList with
  | first :: rest => String.ofList (UppercaseTable.toUppercase first ++ rest)
  | [] => ""

omit [UnicodeTables] in
/-- The unit a source owns: as stated, or after its name. -/
def SourceFile.ou (s : SourceFile) (idpParentOu : String) : String :=
  s.statedOu.getD ("OU=" ++ titleCase s.name ++ "," ++ idpParentOu)

end Names

/-- What a flat name holds. -/
def netbiosLimit : ℕ := 15

/-- Only an encrypted address is bound to. -/
def requireLdaps (url : String) : Except Trail Unit :=
  if startsWith url "ldaps://" then .ok ()
  else .error [url ++ " is not ldaps:// -- the bind password, and every password sync writes, " ++
    "would cross the network in the clear"]

/-- A letter or a digit of ASCII. -/
def isAsciiAlphanumeric (c : Char) : Bool :=
  (decide (48 ≤ c.toNat) && decide (c.toNat ≤ 57)) ||
    (decide (65 ≤ c.toNat) && decide (c.toNat ≤ 90)) ||
      (decide (97 ≤ c.toNat) && decide (c.toNat ≤ 122))

/-- Whether a name may be a path segment, a file name and a unit. -/
def isSourceName (name : String) : Bool :=
  (match name.toList with
    | first :: _ => isAsciiAlphanumeric first
    | [] => false) &&
  name.toList.all fun c => isAsciiAlphanumeric c || c = '.' || c = '-' || c = '_'

/-- The file of a source. -/
def sourceFile (name : String) : String := "idp_" ++ name ++ ".toml"

/-- A file beside the entry point. -/
def joinPath (dir file : String) : String :=
  if dir = "" ∨ dir.toList.getLast? = some '/' then dir ++ file else dir ++ "/" ++ file

section Shape

variable [UnicodeTables] [UppercaseTable]

/-- What is decidable of a realm from its file alone. -/
def realmShape (file : String) (realm : Realm) : Except Trail Unit :=
  let upper := toUppercase realm.realm
  let netbios := realm.netbiosDomainOf
  let dc := realm.dcHostnameOf
  let host := toLowercase realm.ldapHost
  let fqdn := toLowercase (dc ++ "." ++ realm.adDnsDomainOf)
  if realm.realm ≠ upper then
    .error [file ++ ": realm = " ++ UnicodeTables.debug realm.realm ++ " is not upper case. A " ++
      "Kerberos realm name is, and this one is written into the Samba database at provisioning " ++
      "where nothing corrects it afterwards -- `ad_dns_domain` is the lower-case spelling, " ++
      "derived from this. Write realm = " ++ UnicodeTables.debug upper ++ "."]
  else if netbios.toList.contains '.' || netbios.toList.contains ' ' then
    .error [file ++ ": netbios_domain resolves to " ++ UnicodeTables.debug netbios ++
      ", which is not a flat name. This is the domain's NT4-era short name -- what `" ++
      String.ofList (netbios.toList.takeWhile fun c => c != '.' && c != ' ') ++
      "\\alice` means and what a Windows client shows -- so it is one label, with no dots and " ++
      "no spaces."]
  else if netbiosLimit < netbios.length then
    if realm.netbiosDomain.isSome then
      .error [file ++ ": netbios_domain = " ++ UnicodeTables.debug netbios ++ " is " ++
        toString netbios.length ++ " characters; a flat name holds " ++ toString netbiosLimit ++
        ". It is baked into the database at provisioning, so this is not correctable later."]
    else
      .error [file ++ ": realm = " ++ UnicodeTables.debug realm.realm ++
        " has a first label of " ++ toString netbios.length ++ " characters, and the flat name " ++
        "derived from it holds " ++ toString netbiosLimit ++ ". State one: netbios_domain = " ++
        "\"...\", up to " ++ toString netbiosLimit ++ " characters. Not this name cut short -- " ++
        "a truncated flat name is a fourth spelling of the domain that nothing else agrees " ++
        "with, and provisioning bakes it in."]
  else if dc.toList.contains '.' then
    .error [file ++ ": dc_hostname = " ++ UnicodeTables.debug dc ++ " is a fully qualified " ++
      "name; it is the short one. The FQDN is this plus ad_dns_domain, which is what the LDAPS " ++
      "certificate is issued for and what `kbsetup realm` names the host -- so this would " ++
      "resolve as " ++ dc ++ "." ++ realm.adDnsDomainOf ++ ". Write dc_hostname = " ++
      UnicodeTables.debug (beforeFirst '.' dc) ++ "."]
  else if !([fqdn, toLowercase dc, "localhost", "127.0.0.1", "::1"].contains host) then
    .error [file ++ ": ldap_url names the host " ++ UnicodeTables.debug host ++ ", which the " ++
      "realm's LDAPS certificate does not cover. Provisioning signs it for " ++ fqdn ++ ", " ++
      dc ++ " and loopback, from the realm CA that ldap_ca_file names as the only trust root " ++
      "-- so every bind would fail the TLS handshake. Use ldaps://" ++ fqdn ++ ":636, or state " ++
      "dc_hostname if it is this file that names the wrong host."]
  else .ok ()

end Shape

/-- What the files of one directory read as. The sections the load only hands on are
types of their own. -/
structure Files (Issuerd Broker Sync : Type) where
  main : Except Trail Main
  realm : Except Trail Realm
  issuerd : Except Trail Issuerd
  broker : Except Trail Broker
  sync : Except Trail Sync
  /-- Absent when there is no such file. -/
  kbmanage : Option (Except Trail Kbmanage)
  /-- By file name. -/
  source : String → Except Trail SourceFile
  /-- The names in the directory, absent where one is no text. -/
  listing : Except Trail (List (Except Trail (Option String)))

/-- One deployment's configuration, loaded and cross-checked. -/
structure Config (Issuerd Broker Sync : Type) where
  main : Main
  realm : Realm
  issuerd : Issuerd
  broker : Broker
  sync : Sync
  kbmanage : Option Kbmanage
  /-- In the order they are listed. -/
  sources : List SourceFile
  warnings : List String
  deriving DecidableEq

section Load

variable [UnicodeTables] [UppercaseTable] {Issuerd Broker Sync : Type}

omit [UppercaseTable] in
/-- The loop over the listed sources; `seen` are the names passed. -/
def readSources (dir : String) (files : Files Issuerd Broker Sync) (seen : List String) :
    List String → Except Trail (List SourceFile)
  | [] => .ok []
  | name :: rest =>
    if name ∈ seen then
      .error [joinPath dir "main.toml" ++ ": sources lists " ++ UnicodeTables.debug name ++
        " twice"]
    else if isSourceName name = false then
      .error [joinPath dir "main.toml" ++ ": " ++ UnicodeTables.debug name ++ " is not a source " ++
        "name. The name is a path segment in this source's broker URL, a filename stem and an " ++
        "OU: letters, digits, '.', '-' and '_', starting with a letter or a digit."]
    else do
      let source ← files.source (sourceFile name)
      if source.name ≠ name then
        .error [joinPath dir (sourceFile name) ++ ": name = " ++ UnicodeTables.debug source.name ++
          ", but the filename says " ++ UnicodeTables.debug name ++ ". The source name is the " ++
          "frozen storage key in every object this source owns -- rename the file or the key, " ++
          "whichever one is the copy."]
      else do
        let sources ← readSources dir files (seen ++ [name]) rest
        .ok (source :: sources)

/-- One unit per source: each is compared with the units of the sources before it. -/
def checkOus (parentOu : String) (before : List SourceFile) :
    List SourceFile → Except Trail Unit
  | [] => .ok ()
  | source :: rest =>
    match before.find? fun s => dnEquals (s.ou parentOu) (source.ou parentOu) with
    | some other =>
      .error [sourceFile other.name ++ " and " ++ sourceFile source.name ++ " both own " ++
        source.ou parentOu ++ ". A source owns its OU alone: two realm-admission markers in one " ++
        "OU freeze every login for both. Give one of them its own `ou`, or drop the override " ++
        "and let it derive from the name."]
    | none => checkOus parentOu (before ++ [source]) rest

omit [UnicodeTables] [UppercaseTable] in
/-- The remark on a file nobody lists, if it is a source's. -/
def unlistedRemark (listed : List String) (fileName : String) : Option String :=
  match (stripSuffix fileName ".toml").bind fun s => stripPrefix s "idp_" with
  | none => none
  | some stem =>
    if stem ∈ listed then none
    else some (fileName ++ " present, not listed in main.sources -- ignored")

omit [UnicodeTables] [UppercaseTable] in
/-- Source files nobody listed, said out loud in order. -/
def unlisted (dir : String) (listing : Except Trail (List (Except Trail (Option String))))
    (listed : List String) : Except Trail (List String) := do
  let entries ← withContext ("reading " ++ dir) listing
  let names ← entries.mapM (withContext ("reading " ++ dir))
  .ok ((names.filterMap fun name => name.bind (unlistedRemark listed)).insertionSort (· ≤ ·))

omit [UnicodeTables] [UppercaseTable] in
/-- The operator tool's file, if there is one. -/
def readKbmanage (dir : String) (files : Files Issuerd Broker Sync) (realm : Realm) :
    Except Trail (Option Kbmanage) :=
  match files.kbmanage with
  | none => .ok none
  | some read => do
    let k ← read
    withContext (joinPath dir "kbmanage.toml" ++ ": ldap_url")
      (requireLdaps (k.ldapUrl.getD realm.ldapUrl))
    .ok (some k)

/-- Reads and cross-checks the whole set. -/
def Config.load (dir : String) (files : Files Issuerd Broker Sync) :
    Except Trail (Config Issuerd Broker Sync) := do
  let main ← files.main
  let realm ← files.realm
  withContext (joinPath dir "realm.toml" ++ ": ldap_url") (requireLdaps realm.ldapUrl)
  realmShape (joinPath dir "realm.toml") realm
  let issuerd ← files.issuerd
  let broker ← files.broker
  let sync ← files.sync
  let kbmanage ← readKbmanage dir files realm
  let sources ← readSources dir files [] main.sources
  checkOus realm.idpParentOuOf [] sources
  let warnings ← unlisted dir files.listing main.sources
  .ok ⟨main, realm, issuerd, broker, sync, kbmanage, sources, warnings⟩

end Load

end Kerbridge.ConfigSet

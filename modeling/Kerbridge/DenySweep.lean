import Kerbridge.DenyReading

/-!
# One run of the bootstrap

What each search brings, what the class default is afterwards, and which users a sweep gives
the entry: those that were read and not judged to hold it. Where nothing is left to do, a run
writes nothing.
-/

namespace Kerbridge.Setup

open UnicodeText LossyText Ldif Sddl

section Entry

/-- The entry that denies an object the writing of an attribute of its own. -/
def denyAce (g : String) : Ace where
  text := (denyText g).toList
  opened := by simp [denyText, String.toList_append]
  closed := by
    unfold denyText
    rw [String.toList_append, List.getLast?_append]
    rfl

/-- Hexadecimal digits can be printed. -/
theorem printable_hexOf (bytes : List UInt8) : Printable (hexOf bytes) := by
  have hdigit : ∀ n < 16, 32 ≤ (Nat.digitChar n).toNat ∧ (Nat.digitChar n).toNat ≤ 126 := by decide
  intro c hc
  obtain ⟨b, _, hb⟩ := List.mem_flatMap.mp hc
  have hlt : b.toNat < 256 := UInt8.toNat_lt b
  rcases List.mem_cons.mp hb with rfl | hb
  · exact hdigit _ (by omega)
  · rw [List.mem_singleton.mp hb]
    exact hdigit _ (by omega)

/-- A hexadecimal digit is between the dash and the small letter f. -/
theorem hexValue_range {c : Char} (h : (hexValue c).isSome = true) :
    48 ≤ c.toNat ∧ c.toNat ≤ 102 := by
  unfold hexValue at h
  split at h
  · rename_i hdigit
    simp only [Char.isDigit, Bool.and_eq_true, decide_eq_true_eq] at hdigit
    have hlow : 48 ≤ c.toNat := hdigit.1
    have hhigh : c.toNat ≤ 57 := hdigit.2
    omega
  · split at h
    · rename_i hletter
      have hlow : 97 ≤ c.toNat := hletter.1
      have hhigh : c.toNat ≤ 102 := hletter.2
      omega
    · split at h
      · rename_i hletter
        have hlow : 65 ≤ c.toNat := hletter.1
        have hhigh : c.toNat ≤ 70 := hletter.2
        omega
      · cases h

/-- An identifier in small letters can be printed. -/
theorem printable_shaped {text : String} (h : shaped text = true) :
    Printable (text.toList.map Char.toLower) := by
  have hlower : ∀ n < 103, 45 ≤ n →
      32 ≤ (Char.ofNat n).toLower.toNat ∧ (Char.ofNat n).toLower.toNat ≤ 126 := by decide
  unfold shaped at h
  rw [Bool.and_eq_true, Bool.and_eq_true, List.all_eq_true] at h
  intro c hc
  obtain ⟨d, hd, rfl⟩ := List.mem_map.mp hc
  have hrange : 45 ≤ d.toNat ∧ d.toNat ≤ 102 := by
    have hchar := h.1.2 d hd
    rw [Bool.or_eq_true, decide_eq_true_eq] at hchar
    rcases hchar with hhex | rfl
    · have hhex := hexValue_range hhex
      omega
    · decide
  have hd' := hlower d.toNat (by omega) hrange.1
  rwa [Char.ofNat_toNat] at hd'

variable [UnicodeTables]

/-- An identifier is text that can be printed. -/
theorem guid_printable {value g : String} (h : guid value = .ok g) : Printable g.toList := by
  unfold guid at h
  cases hraw : raw value with
  | some bytes =>
    rw [hraw] at h
    dsimp only at h
    split at h
    · cases h
    · have hdash : 32 ≤ '-'.toNat ∧ '-'.toNat ≤ 126 := by decide
      have hg := Except.ok.inj h
      rw [← hg, String.toList_ofList]
      intro c hc
      simp only [List.mem_append, List.mem_cons] at hc
      rcases hc with hc | rfl | hc | rfl | hc | rfl | hc | rfl | hc
      · exact printable_hexOf _ c hc
      · exact hdash
      · exact printable_hexOf _ c hc
      · exact hdash
      · exact printable_hexOf _ c hc
      · exact hdash
      · exact printable_hexOf _ c hc
      · exact hdash
      · exact printable_hexOf _ c hc
  | none =>
    rw [hraw] at h
    dsimp only at h
    split at h
    · rename_i hshaped
      have hg := Except.ok.inj h
      rw [← hg, String.toList_ofList]
      exact printable_shaped hshaped
    · cases h

/-- The entry can be printed. -/
theorem printable_denyAce {value g : String} (h : guid value = .ok g) :
    Printable (denyAce g).text := by
  have hg := guid_printable h
  have hfirst : Printable "(OD;;WP;".toList := printable_of_all (by decide)
  have hlast : Printable ";;PS)".toList := printable_of_all (by decide)
  intro c hc
  change c ∈ (denyText g).toList at hc
  unfold denyText at hc
  rw [String.toList_append, String.toList_append, List.mem_append, List.mem_append] at hc
  rcases hc with (hc | hc) | hc
  · exact hfirst c hc
  · exact hg c hc
  · exact hlast c hc

end Entry

section Searches

variable [UnicodeTables] (p : Printer) (ou : String) (s : Sam)

omit [UnicodeTables] in
/-- What a search for the schema's name brings. -/
theorem search_root : search (p.tools ou) s rootArgs =
    if p.up s rootArgs then .ok (entries (String.ofList (p.rootDse s.schemaDn).print))
    else .error "ldbsearch failed" := by
  change (Except.map entries (p.ldbsearch ou s rootArgs)) = _
  unfold Printer.ldbsearch
  cases p.up s rootArgs with
  | false => rfl
  | true => rfl

omit [UnicodeTables] in
/-- What a search for the identity attribute brings. -/
theorem search_identity (base : String) : search (p.tools ou) s (identityArgs base) =
    if p.up s (identityArgs base) then
      if base = s.schemaDn.1 then .ok (entries (String.ofList (p.identity s.identityDn s.identityGuid).print))
      else .error "No such Base DN"
    else .error "ldbsearch failed" := by
  change (Except.map entries (p.ldbsearch ou s (identityArgs base))) = _
  unfold Printer.ldbsearch
  cases p.up s (identityArgs base) with
  | false => rfl
  | true =>
    by_cases hbase : base = s.schemaDn.1
    · simp [identityArgs, rootArgs, hbase, Except.map]
    · simp [identityArgs, rootArgs, attributeArgs, usersArgs, hbase, Except.map]

omit [UnicodeTables] in
/-- What a search for the class default brings. -/
theorem search_class : search (p.tools ou) s
      (attributeArgs (userClass s.schemaDn.1) "defaultSecurityDescriptor") =
    if p.up s (attributeArgs (userClass s.schemaDn.1) "defaultSecurityDescriptor") then
      .ok (entries (String.ofList (p.classDefault s.schemaDn s.classDefault).print))
    else .error "ldbsearch failed" := by
  change (Except.map entries (p.ldbsearch ou s _)) = _
  unfold Printer.ldbsearch
  cases p.up s (attributeArgs (userClass s.schemaDn.1) "defaultSecurityDescriptor") with
  | false => rfl
  | true => simp [identityArgs, rootArgs, attributeArgs, Except.map]

omit [UnicodeTables] in
/-- What a search for the users brings. -/
theorem search_users : search (p.tools ou) s (usersArgs ou) =
    if p.up s (usersArgs ou) then .ok (entries (String.ofList (p.users s.users).print))
    else .error "ldbsearch failed" := by
  change (Except.map entries (p.ldbsearch ou s _)) = _
  unfold Printer.ldbsearch
  cases p.up s (usersArgs ou) with
  | false => rfl
  | true => simp [identityArgs, rootArgs, attributeArgs, usersArgs, Except.map]

omit [UnicodeTables] in
/-- The schema's name, as it is read. -/
theorem schemaDn_eq : ∃ r, (p.rootDse s.schemaDn).records = [r] ∧ schemaDn (p.tools ou) s =
    if p.up s rootArgs then
      if Readable r then .ok (shown (bytesOf s.schemaDn.1))
      else .error "the rootDSE names no schemaNamingContext"
    else .error "ldbsearch failed" := by
  obtain ⟨r, hr, hrecord⟩ := p.rootDse_records s.schemaDn
  refine ⟨r, hr, ?_⟩
  have hfound := hrecord.found (by decide) (by decide)
  unfold schemaDn
  rw [search_root, entries_single hr]
  by_cases hup : p.up s rootArgs = true
  · rw [if_pos hup, if_pos hup]
    dsimp only [bind, Except.bind]
    rw [Option.head?_toList, hfound]
    by_cases hread : Readable r
    · rw [if_pos hread, if_pos hread]
    · rw [if_neg hread, if_neg hread]
  · rw [if_neg hup, if_neg hup]
    rfl

/-- The identity attribute's identifier, as it is read. -/
theorem identityAttributeGuid_eq (base : String) : ∃ r, (p.identity s.identityDn s.identityGuid).records = [r] ∧
    identityAttributeGuid (p.tools ou) s base =
      if p.up s (identityArgs base) then
        if base = s.schemaDn.1 then
          if Readable r then guid (shown s.identityGuid)
          else .error ("msDS-ExternalDirectoryObjectId is not in this schema. It is stock since the " ++
            "Server 2016 schema, so a directory without it is older than this design supports.")
        else .error "No such Base DN"
      else .error "ldbsearch failed" := by
  obtain ⟨r, hr, hrecord⟩ := p.identity_records s.identityDn s.identityGuid
  refine ⟨r, hr, ?_⟩
  have hfound := hrecord.found (by decide) (by decide)
  unfold identityAttributeGuid
  rw [search_identity, entries_single hr]
  by_cases hup : p.up s (identityArgs base) = true
  · rw [if_pos hup, if_pos hup]
    by_cases hbase : base = s.schemaDn.1
    · rw [if_pos hbase, if_pos hbase]
      have hlist : (r.entryBy escaped).toList.filterMap (first · "schemaIDGUID") =
          (if Readable r then some (shown s.identityGuid) else none).toList := by
        rw [← hfound]
        cases r.entryBy escaped with
        | none => rfl
        | some e =>
          rw [Option.toList_some, List.filterMap_cons, List.filterMap_nil, Option.bind_some]
          cases first e "schemaIDGUID" with
          | none => rfl
          | some v => rfl
      dsimp only [bind, Except.bind]
      rw [hlist]
      by_cases hread : Readable r
      · rw [if_pos hread, if_pos hread]
        rfl
      · rw [if_neg hread, if_neg hread]
        rfl
    · rw [if_neg hbase, if_neg hbase]
      rfl
  · rw [if_neg hup, if_neg hup]
    rfl

omit [UnicodeTables] in
/-- The class default, as it is read. -/
theorem classDefault_eq : ∃ r, (p.classDefault s.schemaDn s.classDefault).records = [r] ∧
    attributeOf (p.tools ou) s (userClass s.schemaDn.1) "defaultSecurityDescriptor" =
      if p.up s (attributeArgs (userClass s.schemaDn.1) "defaultSecurityDescriptor") then
        if Readable r then .ok (shown (bytesOf s.classDefault))
        else .error (userClass s.schemaDn.1 ++ " has no " ++ "defaultSecurityDescriptor")
      else .error "ldbsearch failed" := by
  obtain ⟨r, hr, hrecord⟩ := p.classDefault_records s.schemaDn s.classDefault
  refine ⟨r, hr, ?_⟩
  have hfound := hrecord.found (by decide) (by decide)
  unfold attributeOf
  rw [search_class, entries_single hr]
  by_cases hup : p.up s (attributeArgs (userClass s.schemaDn.1) "defaultSecurityDescriptor") = true
  · rw [if_pos hup, if_pos hup]
    dsimp only [bind, Except.bind]
    rw [Option.head?_toList, hfound]
    by_cases hread : Readable r
    · rw [if_pos hread, if_pos hread]
    · rw [if_neg hread, if_neg hread]
  · rw [if_neg hup, if_neg hup]
    rfl

omit [UnicodeTables] in
/-- A schema's name that was read. -/
theorem schemaDn_ok {base : String} (h : schemaDn (p.tools ou) s = .ok base) :
    shown (bytesOf s.schemaDn.1) = base := by
  obtain ⟨r, _, hschema⟩ := schemaDn_eq p ou s
  rw [hschema] at h
  split at h
  · split at h
    · exact Except.ok.inj h
    · cases h
  · cases h

/-- An identifier that was read. -/
theorem identityAttributeGuid_ok {base g : String}
    (h : identityAttributeGuid (p.tools ou) s base = .ok g) :
    base = s.schemaDn.1 ∧ guid (shown s.identityGuid) = .ok g := by
  obtain ⟨r, _, hidentity⟩ := identityAttributeGuid_eq p ou s base
  rw [hidentity] at h
  split at h
  · split at h
    · rename_i hbase
      split at h
      · exact ⟨hbase, h⟩
      · cases h
    · cases h
  · cases h

omit [UnicodeTables] in
/-- A class default that was read. -/
theorem classDefault_ok {current : String}
    (h : attributeOf (p.tools ou) s (userClass s.schemaDn.1) "defaultSecurityDescriptor" =
      .ok current) : current = shown (bytesOf s.classDefault) := by
  obtain ⟨r, _, hclass⟩ := classDefault_eq p ou s
  rw [hclass] at h
  split at h
  · split at h
    · exact (Except.ok.inj h).symm
    · cases h
  · cases h

omit [UnicodeTables] in
/-- The users that were read. -/
theorem users_ok {found : List Entry} (h : search (p.tools ou) s (usersArgs ou) = .ok found) :
    found = (p.users s.users).records.filterMap (Record.entryBy escaped) := by
  rw [search_users] at h
  split at h
  · rw [← Except.ok.inj h, entries, String.toList_ofList, entriesBy_print]
  · cases h

end Searches

section Sweep

variable [UnicodeTables] (p : Printer) (ou : String)

/-- An object below the unit, as a record prints it. -/
abbrev UserRecord (r : Record) (o : Secured) : Prop :=
  RecordOf (bytesOf o.dn.1) "nTSecurityDescriptor" (bytesOf o.dacl) r

/-- A user is given the entry: it is read, and not judged to hold it. -/
def Given (deny : String) (r : Record) (o : Secured) : Prop :=
  Readable r ∧ containsAce (shown (bytesOf o.dacl)) deny = false

instance (deny : String) (r : Record) (o : Secured) : Decidable (Given deny r o) :=
  inferInstanceAs (Decidable (_ ∧ _))

/-- The users that are given the entry. -/
def given (deny : String) (rs : List Record) (os : List Secured) : List Secured :=
  ((rs.zip os).filter fun q => Given deny q.1 q.2).map Prod.snd

/-- One user of a sweep. -/
theorem sweep_cons {σ : Type} (db : Tools σ) (deny : String) {r : Record} {o : Secured}
    (h : UserRecord r o) (rs : List Record) (w : Work σ) :
    sweep db deny ((r :: rs).filterMap (Record.entryBy escaped)) w =
      if Given deny r o then
        match db.dsaclSet w.state (shown (bytesOf o.dn.1)) deny with
        | .error _ =>
          (.error ("denying SELF the identity attribute on " ++ shown (bytesOf o.dn.1)), w)
        | .ok state => sweep db deny (rs.filterMap (Record.entryBy escaped)) ⟨state, w.writes + 1⟩
      else sweep db deny (rs.filterMap (Record.entryBy escaped)) w := by
  by_cases hread : Readable r
  · obtain ⟨e, he, hdn, hvalue⟩ := h.readable (by decide) (by decide) hread
    rw [List.filterMap_cons, he, sweep, hdn, hvalue]
    dsimp only
    cases hcontains : containsAce (shown (bytesOf o.dacl)) deny with
    | true => simp [Given, hcontains]
    | false =>
      have hgiven : Given deny r o := ⟨hread, hcontains⟩
      rw [if_pos hgiven]
      refine (if_neg (by simp)).trans ?_
      cases db.dsaclSet w.state (shown (bytesOf o.dn)) deny with
      | error _ => rfl
      | ok _ => rfl
  · rw [if_neg fun hgiven => hread hgiven.1]
    rcases h.unreadable (by decide) (by decide) hread with he | ⟨e, he, hvalue⟩
    · rw [List.filterMap_cons, he]
    · rw [List.filterMap_cons, he, sweep, hvalue]
      cases first e "dn" with
      | none => rfl
      | some dn => rfl

/-- The users given the entry, one more looked at. -/
theorem given_cons (deny : String) (r : Record) (o : Secured) (rs : List Record)
    (os : List Secured) : given deny (r :: rs) (o :: os) =
      if Given deny r o then o :: given deny rs os else given deny rs os := by
  unfold given
  rw [List.zip_cons_cons, List.filter_cons]
  by_cases h : Given deny r o
  · simp [h]
  · simp [h]

/-- A directory with an entry first at each of some objects. -/
def Sam.prependAll (s : Sam) (a : Ace) (os : List Secured) : Sam :=
  os.foldl (fun s o => s.prepend o.dn.1 a) s

omit [UnicodeTables] in
/-- What giving one object the entry does, if it succeeds. -/
theorem dsaclSet_ok {s s' : Sam} {dn : Dn} {a : Ace}
    (h : p.dsaclSet s (shown (bytesOf dn.1)) (String.ofList a.text) = .ok s') :
    isSafe (bytesOf dn.1) = true ∧ s' = s.prepend dn.1 a := by
  unfold Printer.dsaclSet at h
  have hace : aceOf (String.ofList a.text).toList = some a := by
    unfold aceOf
    rw [dif_pos (by rw [String.toList_ofList]; exact ⟨a.opened, a.closed⟩)]
    simp
  rw [hace] at h
  split at h
  · cases h
  · dsimp only at h
    split at h
    · rename_i hexists
      obtain ⟨o, _, ho⟩ := hexists
      obtain ⟨hsafe, heq⟩ := shown_dn ho.symm
      rw [shown_bytesOf hsafe] at h
      cases h
      exact ⟨hsafe, rfl⟩
    · cases h

omit [UnicodeTables] in
/-- Giving an object the entry succeeds, if its name is read and the tool does not fail. -/
theorem dsaclSet_up {s : Sam} {dn : Dn} {a : Ace} (hup : ∀ s args, p.up s args = true)
    (hsafe : isSafe (bytesOf dn.1) = true) (hdn : dn ∈ (s.users ++ s.others).map Secured.dn) :
    p.dsaclSet s (shown (bytesOf dn.1)) (String.ofList a.text) = .ok (s.prepend dn.1 a) := by
  have hace : aceOf (String.ofList a.text).toList = some a := by
    unfold aceOf
    rw [dif_pos (by rw [String.toList_ofList]; exact ⟨a.opened, a.closed⟩)]
    simp
  obtain ⟨o, ho, hodn⟩ := List.mem_map.mp hdn
  have hexists : ∃ o ∈ s.users ++ s.others, o.dn.1 = dn.1 := ⟨o, ho, congrArg Subtype.val hodn⟩
  unfold Printer.dsaclSet
  rw [hace, hup, shown_bytesOf hsafe]
  dsimp only
  rw [if_pos hexists]
  rfl

/-- What a sweep did that succeeded. -/
theorem sweep_ok {a : Ace} {rs : List Record} {os : List Secured}
    (h : List.Forall₂ UserRecord rs os) {w w' : Work Sam}
    (hrun : sweep (p.tools ou) (String.ofList a.text) (rs.filterMap (Record.entryBy escaped)) w =
      (.ok (), w')) :
    (∀ o ∈ given (String.ofList a.text) rs os, isSafe (bytesOf o.dn.1) = true) ∧
      w' = ⟨w.state.prependAll a (given (String.ofList a.text) rs os),
        w.writes + (given (String.ofList a.text) rs os).length⟩ := by
  induction h generalizing w with
  | nil =>
    cases hrun
    exact ⟨by simp [given], rfl⟩
  | @cons r o rs os hr _ ih =>
    rw [sweep_cons _ _ hr] at hrun
    rw [given_cons]
    by_cases hgiven : Given (String.ofList a.text) r o
    · rw [if_pos hgiven] at hrun ⊢
      cases hset : (p.tools ou).dsaclSet w.state (shown (bytesOf o.dn.1)) (String.ofList a.text) with
      | error e =>
        rw [hset] at hrun
        cases hrun
      | ok s' =>
        rw [hset] at hrun
        obtain ⟨hsafe, rfl⟩ := dsaclSet_ok p hset
        obtain ⟨hrest, hw⟩ := ih hrun
        refine ⟨List.forall_mem_cons.mpr ⟨hsafe, hrest⟩, ?_⟩
        rw [hw, List.length_cons, Nat.add_assoc, Nat.add_comm 1]
        rfl
    · rw [if_neg hgiven] at hrun ⊢
      exact ih hrun

/-- A sweep that gives no user the entry does nothing. -/
theorem sweep_quiet {σ : Type} (db : Tools σ) {deny : String} {rs : List Record}
    {os : List Secured} (h : List.Forall₂ UserRecord rs os) (hnone : given deny rs os = [])
    (w : Work σ) : sweep db deny (rs.filterMap (Record.entryBy escaped)) w = (.ok (), w) := by
  induction h with
  | nil => rfl
  | @cons r o rs os hr _ ih =>
    rw [given_cons] at hnone
    by_cases hgiven : Given deny r o
    · rw [if_pos hgiven] at hnone
      cases hnone
    · rw [if_neg hgiven] at hnone
      rw [sweep_cons db deny hr, if_neg hgiven]
      exact ih hnone

omit [UnicodeTables] in
/-- Giving an object the entry leaves the objects there are. -/
theorem map_dn_prepend (s : Sam) (dn : String) (a : Ace) :
    ((s.prepend dn a).users ++ (s.prepend dn a).others).map Secured.dn =
      (s.users ++ s.others).map Secured.dn := by
  change (s.users.map (prependAt dn a) ++ s.others.map (prependAt dn a)).map Secured.dn = _
  rw [List.map_append, map_dn_prependAt, map_dn_prependAt, List.map_append]

/-- A sweep gives the entry to every user that is to have it, if their names are read and no
tool fails. -/
theorem sweep_up {a : Ace} {rs : List Record} {os : List Secured}
    (h : List.Forall₂ UserRecord rs os) (hup : ∀ s args, p.up s args = true) {w : Work Sam}
    (hsafe : ∀ o ∈ given (String.ofList a.text) rs os, isSafe (bytesOf o.dn.1) = true)
    (hdn : ∀ o ∈ os, o.dn ∈ (w.state.users ++ w.state.others).map Secured.dn) :
    sweep (p.tools ou) (String.ofList a.text) (rs.filterMap (Record.entryBy escaped)) w =
      (.ok (), ⟨w.state.prependAll a (given (String.ofList a.text) rs os),
        w.writes + (given (String.ofList a.text) rs os).length⟩) := by
  induction h generalizing w with
  | nil => rfl
  | @cons r o rs os hr _ ih =>
    obtain ⟨ho, hrest⟩ := List.forall_mem_cons.mp hdn
    rw [sweep_cons _ _ hr]
    rw [given_cons] at hsafe ⊢
    by_cases hgiven : Given (String.ofList a.text) r o
    · rw [if_pos hgiven] at hsafe ⊢
      obtain ⟨hfirst, hsafe⟩ := List.forall_mem_cons.mp hsafe
      have hset : (p.tools ou).dsaclSet w.state (shown (bytesOf o.dn.1)) (String.ofList a.text) =
          .ok (w.state.prepend o.dn.1 a) := dsaclSet_up p hup hfirst ho
      have hcount : w.writes + ((given (String.ofList a.text) rs os).length + 1) =
          w.writes + 1 + (given (String.ofList a.text) rs os).length := by omega
      rw [hset, if_pos hgiven, List.length_cons, hcount]
      refine @ih ⟨w.state.prepend o.dn.1 a, w.writes + 1⟩ hsafe ?_
      intro o' ho'
      change o'.dn ∈ ((w.state.prepend o.dn.1 a).users ++ (w.state.prepend o.dn.1 a).others).map _
      rw [map_dn_prepend]
      exact hrest o' ho'
    · rw [if_neg hgiven] at hsafe ⊢
      rw [if_neg hgiven]
      exact ih hsafe hrest

end Sweep

section Objects

/-- An object with the entry first if its name is among some. -/
def prependIf (a : Ace) (dns : List Dn) (o : Secured) : Secured :=
  if o.dn ∈ dns then { o with descriptor := o.descriptor.prepend a } else o

/-- Giving the entry by name, once more. -/
theorem prependIf_prependAt (a : Ace) {dn : Dn} {dns : List Dn} (h : dn ∉ dns) (o : Secured) :
    prependIf a dns (prependAt dn.1 a o) = prependIf a (dn :: dns) o := by
  unfold prependAt prependIf
  by_cases hdn : o.dn.1 = dn.1
  · have heq : o.dn = dn := Subtype.ext hdn
    rw [if_pos hdn, if_neg (by rw [heq]; exact h), if_pos (by rw [heq]; exact List.mem_cons_self)]
  · have hne : o.dn ≠ dn := fun heq => hdn (congrArg Subtype.val heq)
    rw [if_neg hdn]
    by_cases hmem : o.dn ∈ dns
    · rw [if_pos hmem, if_pos (List.mem_cons_of_mem _ hmem)]
    · rw [if_neg hmem, if_neg (by simp [hne, hmem])]

/-- What a directory is once objects of different names were each given the entry. -/
structure GivenAll (a : Ace) (dns : List Dn) (s s' : Sam) : Prop where
  users : s'.users = s.users.map (prependIf a dns)
  others : s'.others = s.others.map (prependIf a dns)
  schemaDn : s'.schemaDn = s.schemaDn
  identityDn : s'.identityDn = s.identityDn
  identityGuid : s'.identityGuid = s.identityGuid
  classDefault : s'.classDefault = s.classDefault

/-- Objects of different names are each given the entry once. -/
theorem prependAll_given (a : Ace) {os : List Secured} (hdistinct : (os.map Secured.dn).Nodup)
    (s : Sam) : GivenAll a (os.map Secured.dn) s (s.prependAll a os) := by
  induction os generalizing s with
  | nil =>
    have hid : prependIf a [] = id := by
      funext o
      simp [prependIf]
    exact ⟨by simp [hid, Sam.prependAll], by simp [hid, Sam.prependAll], rfl, rfl, rfl, rfl⟩
  | cons o os ih =>
    rw [List.map_cons, List.nodup_cons] at hdistinct
    have hrest := ih hdistinct.2 (s.prepend o.dn.1 a)
    have hone : ∀ os' : List Secured, (os'.map (prependAt o.dn.1 a)).map
        (prependIf a (os.map Secured.dn)) = os'.map (prependIf a (o.dn :: os.map Secured.dn)) := by
      intro os'
      rw [List.map_map]
      refine List.map_congr_left ?_
      intro o' _
      exact prependIf_prependAt a hdistinct.1 o'
    exact ⟨hrest.users.trans (hone s.users), hrest.others.trans (hone s.others), hrest.schemaDn,
      hrest.identityDn, hrest.identityGuid, hrest.classDefault⟩

end Objects

section Class

variable [UnicodeTables] (p : Printer) (ou : String)

omit [UnicodeTables] in
/-- A modification is taken apart again. -/
theorem modify_value (schemaDn updated : String) :
    (stripPrefix (modifyHead schemaDn ++ updated ++ modifyTail) (modifyHead schemaDn)).bind
      (stripSuffix · modifyTail) = some updated := by
  have hhead : stripPrefix (modifyHead schemaDn ++ updated ++ modifyTail) (modifyHead schemaDn) =
      some (updated ++ modifyTail) := by
    unfold stripPrefix startsWith
    rw [String.append_assoc, String.toList_append, if_pos, List.drop_left,
      String.ofList_toList]
    rw [List.isPrefixOf_iff_prefix]
    exact List.prefix_append _ _
  rw [hhead, Option.bind_some]
  unfold stripSuffix
  rw [String.toList_append, if_pos]
  · simp
  · rw [List.isSuffixOf_iff_suffix]
    exact List.suffix_append _ _

omit [UnicodeTables] in
/-- What a modification that succeeds does. -/
theorem ldbmodify_ok {s s' : Sam} {updated : String}
    (h : p.ldbmodify s (modifyHead s.schemaDn.1 ++ updated ++ modifyTail) [schemaOption] = .ok s') :
    s' = { s with classDefault := updated } := by
  unfold Printer.ldbmodify at h
  rw [modify_value] at h
  split at h
  · cases h
  · split at h
    · cases h
    · exact (Except.ok.inj h).symm

variable (hascii : ∀ c : Char, c.toNat < 128 → UnicodeTables.toLowercase c = [c.toLower])
include hascii

/-- What the class default is after its part of a run succeeded. -/
theorem class_ok {a : Ace} (ha : Printable a.text) {d : Descriptor} {acl : Acl} {w w' : Work Sam}
    (hd : w.state.classDefault = String.ofList d.print) (hacl : d.dacl = some acl)
    (hne : acl.aces ≠ [])
    (hrun : denyClassDefault (p.tools ou) w.state.schemaDn.1 (String.ofList a.text) w =
      (.ok (), w')) :
    Printable d.print ∧
      ((containsAce (String.ofList d.print) (String.ofList a.text) = true ∧ w' = w) ∨
        (containsAce (String.ofList d.print) (String.ofList a.text) = false ∧
          w' = ⟨{ w.state with classDefault := String.ofList (d.prepend a).print },
            w.writes + 1⟩)) := by
  unfold denyClassDefault at hrun
  split at hrun
  · cases hrun
  · rename_i current hcurrent
    have hshown := classDefault_ok p ou w.state hcurrent
    rw [hd] at hshown
    by_cases hprint : Printable d.print
    · rw [shown_bytesOf ((isSafe_print d).mpr hprint)] at hshown
      refine ⟨hprint, ?_⟩
      rw [hshown] at hrun
      have hinsert : insertFirstAce (String.ofList d.print) (String.ofList a.text) =
          .ok (String.ofList (d.prepend a).print) := by
        unfold insertFirstAce
        rw [String.toList_ofList, String.toList_ofList, insertAt_print a hacl hne]
      cases hcontains : containsAce (String.ofList d.print) (String.ofList a.text) with
      | true =>
        rw [hcontains, if_pos rfl] at hrun
        cases hrun
        exact Or.inl ⟨rfl, rfl⟩
      | false =>
        rw [hcontains, if_neg (by simp), hinsert] at hrun
        refine Or.inr ⟨rfl, ?_⟩
        dsimp only at hrun
        cases hmodify : (p.tools ou).ldbmodify w.state (modifyHead w.state.schemaDn.1 ++
            String.ofList (d.prepend a).print ++ modifyTail) [schemaOption] with
        | error e =>
          rw [hmodify] at hrun
          cases hrun
        | ok state =>
          rw [hmodify] at hrun
          cases hrun
          rw [ldbmodify_ok p hmodify]
    · have hsafe : ¬ isSafe (bytesOf (String.ofList d.print)) = true :=
        fun h => hprint ((isSafe_print d).mp h)
      unfold shown at hshown
      rw [if_neg hsafe] at hshown
      have hinsert : insertFirstAce (escaped (bytesOf (String.ofList d.print)))
          (String.ofList a.text) =
            .error ("no DACL to insert into: " ++ escaped (bytesOf (String.ofList d.print))) := by
        unfold insertFirstAce
        rw [insertAt_escaped]
      rw [hshown, containsAce_escaped hascii a ha, if_neg (by simp), hinsert] at hrun
      cases hrun

omit hascii in
/-- A class default that is read to hold the entry is left alone. -/
theorem class_quiet {deny : String} {w : Work Sam}
    (hsafe : isSafe (bytesOf w.state.classDefault) = true)
    (hholds : containsAce w.state.classDefault deny = true) :
    (denyClassDefault (p.tools ou) w.state.schemaDn.1 deny w).2 = w := by
  unfold denyClassDefault
  split
  · rfl
  · rename_i current hcurrent
    have hshown := classDefault_ok p ou w.state hcurrent
    rw [shown_bytesOf hsafe] at hshown
    rw [hshown, hholds, if_pos rfl]

end Class

section Run

variable [UnicodeTables] (p : Printer) (ou : String)

/-- The parts of a run that succeeded. -/
theorem run_ok {w w' : Work Sam}
    (hrun : denySelfIdentityWrite (p.tools ou) ou w = (.ok (), w')) :
    isSafe (bytesOf w.state.schemaDn.1) = true ∧
      ∃ g w₁, guid (shown w.state.identityGuid) = .ok g ∧
        denyClassDefault (p.tools ou) w.state.schemaDn.1 (denyText g) w = (.ok (), w₁) ∧
          sweep (p.tools ou) (denyText g)
            ((p.users w₁.state.users).records.filterMap (Record.entryBy escaped)) w₁ =
              (.ok (), w') := by
  unfold denySelfIdentityWrite at hrun
  split at hrun
  · cases hrun
  · rename_i base hbase
    have hshown := schemaDn_ok p ou w.state hbase
    split at hrun
    · cases hrun
    · rename_i g hg
      obtain ⟨rfl, hguid⟩ := identityAttributeGuid_ok p ou w.state hg
      refine ⟨(shown_dn hshown).1, g, ?_⟩
      split at hrun
      · cases hrun
      · rename_i w₁ hclass
        refine ⟨w₁, hguid, hclass, ?_⟩
        split at hrun
        · cases hrun
        · rename_i found hfound
          rw [← users_ok p ou w₁.state hfound]
          exact hrun

/-- Nothing is left to do: the class default and every user are read to hold the entry. -/
structure Quiet (deny : String) (s : Sam) : Prop where
  safe : isSafe (bytesOf s.classDefault) = true
  holds : containsAce s.classDefault deny = true
  users : ∀ o ∈ s.users, isSafe (bytesOf o.dacl) = true ∧ containsAce o.dacl deny = true

/-- No user is given the entry where nothing is left to do. -/
theorem Quiet.given {deny : String} {s : Sam} (h : Quiet deny s) :
    given deny (p.users s.users).records s.users = [] := by
  unfold Setup.given
  rw [List.map_eq_nil_iff, List.filter_eq_nil_iff]
  intro q hq
  obtain ⟨hsafe, hcontains⟩ := h.users q.2 (List.of_mem_zip hq).2
  have hnot : ¬ Given deny q.1 q.2 := by
    rintro ⟨_, hno⟩
    rw [shown_bytesOf hsafe, hcontains] at hno
    cases hno
  simpa using hnot

/-- A run where nothing is left to do writes nothing, whether or not it succeeds. -/
theorem run_quiet {g : String} {w : Work Sam}
    (hguid : guid (shown w.state.identityGuid) = .ok g) (hquiet : Quiet (denyText g) w.state) :
    (denySelfIdentityWrite (p.tools ou) ou w).2 = w := by
  unfold denySelfIdentityWrite
  split
  · rfl
  · rename_i base hbase
    split
    · rfl
    · rename_i g' hg'
      obtain ⟨rfl, hguid'⟩ := identityAttributeGuid_ok p ou w.state hg'
      have hsame : g' = g := Except.ok.inj (hguid'.symm.trans hguid)
      rw [hsame]
      have hclass := class_quiet p ou hquiet.safe hquiet.holds
      split
      · rename_i e w₁ hrun
        rw [hrun] at hclass
        exact hclass
      · rename_i w₁ hrun
        rw [hrun] at hclass
        have hw : w₁ = w := hclass
        rw [hw]
        split
        · rfl
        · rename_i found hfound
          rw [users_ok p ou w.state hfound,
            sweep_quiet _ (p.users_records w.state.users) (hquiet.given p)]

end Run

end Kerbridge.Setup

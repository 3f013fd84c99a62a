import Kerbridge.DenySweep
import Mathlib.Data.List.Nodup

/-!
# The denied write is in force

After a run that succeeds, every user that was read and not judged covered has the entry
first. A user is passed over when a line of it is misread, or when the text of the entry
stands anywhere in its list. So the entry is in force exactly if it was already for these.
-/

namespace Kerbridge.Setup

open UnicodeText LossyText Ldif Sddl

section Clear

/-- A line that is folded before its value. -/
def clearLine (attr : List Char) (h : isAttribute attr = true) (value : List UInt8) : Line where
  attr := attr
  value := value
  plain := isSafe value
  head := []
  folds := [if isSafe value then asciiChars value else Base64.encode value]
  named := h
  safe := isPlain_of_isSafe
  folded := by simp

/-- The name of a record's first line. -/
theorem isAttribute_dn : isAttribute "dn".toList = true := by decide

/-- A record of lines that are folded before their values. -/
def clearRecord (dn : List UInt8) (attr : String) (h : isAttribute attr.toList = true)
    (hne : attr.toList ≠ "dn".toList) (value : List UInt8) : Record where
  dn := clearLine "dn".toList isAttribute_dn dn
  lines := [clearLine attr.toList h value]
  named := rfl
  others := by
    intro l hl
    rw [List.mem_singleton.mp hl]
    exact hne

/-- Such a record prints its object. -/
theorem clearRecord_of (dn : List UInt8) (attr : String) (h : isAttribute attr.toList = true)
    (hne : attr.toList ≠ "dn".toList) (value : List UInt8) :
    RecordOf dn attr value (clearRecord dn attr h hne value) where
  dn := rfl
  lines := ⟨_, rfl, rfl, rfl⟩
  safely := by
    intro l hl
    rcases List.mem_cons.mp hl with rfl | hl
    · rfl
    · rw [List.mem_singleton.mp hl]
      rfl

/-- Such a record is read as printed. -/
theorem clearRecord_readable (dn : List UInt8) (attr : String) (h : isAttribute attr.toList = true)
    (hne : attr.toList ≠ "dn".toList) (value : List UInt8) :
    Readable (clearRecord dn attr h hne value) := by
  have hcut : cutAt ":: ".toList [] = none := by decide
  intro l hl
  rcases List.mem_cons.mp hl with rfl | hl
  · exact fun _ => hcut
  · rw [List.mem_singleton.mp hl]
    exact fun _ => hcut

/-- A document of records. -/
def documentOf (rs : List Record) : Document := ⟨rs.map Block.record, none⟩

/-- The records of such a document. -/
theorem documentOf_records (rs : List Record) : (documentOf rs).records = rs := by
  rw [Document.records_eq]
  change (rs.map Block.record).flatMap Block.records ++ [] = rs
  rw [List.append_nil, List.flatMap_map]
  exact List.flatMap_singleton' rs

/-- The one record of such a document. -/
theorem readable_single {r r' : Record} (h : Readable r') (hr : (documentOf [r']).records = [r]) :
    Readable r := by
  rw [documentOf_records] at hr
  rw [← (List.cons.inj hr).1]
  exact h

/-- A user, folded before its values. -/
def clearUser (o : Secured) : Record :=
  clearRecord (bytesOf o.dn.1) "nTSecurityDescriptor" (by decide) (by decide) (bytesOf o.dacl)

/-- Such a user is read as printed. -/
theorem clearUser_readable (o : Secured) : Readable (clearUser o) :=
  clearRecord_readable _ _ _ _ _

/-- Searches that fold every line before its value, and tools that do not fail. -/
def clearPrinter : Printer where
  rootDse schemaDn := documentOf [clearRecord [] "schemaNamingContext" (by decide) (by decide)
    (bytesOf schemaDn.1)]
  identity dn value := documentOf [clearRecord (bytesOf dn.1) "schemaIDGUID" (by decide)
    (by decide) value]
  classDefault schemaDn value := documentOf [clearRecord (bytesOf (userClass schemaDn.1))
    "defaultSecurityDescriptor" (by decide) (by decide) (bytesOf value)]
  users os := documentOf (os.map clearUser)
  up _ _ := true
  rootDse_records schemaDn := ⟨_, documentOf_records _, clearRecord_of _ _ _ _ _⟩
  identity_records dn value := ⟨_, documentOf_records _, clearRecord_of _ _ _ _ _⟩
  classDefault_records schemaDn value := ⟨_, documentOf_records _, clearRecord_of _ _ _ _ _⟩
  users_records os := by
    rw [documentOf_records, List.forall₂_map_left_iff, List.forall₂_same]
    exact fun o _ => clearRecord_of _ _ _ _ _

variable [UnicodeTables] (ou : String)

/-- With such searches a safe class default is read, and given the entry unless it holds it. -/
theorem class_clear {deny : String} {w : Work Sam}
    (hsafe : isSafe (bytesOf w.state.classDefault) = true) :
    denyClassDefault (clearPrinter.tools ou) w.state.schemaDn.1 deny w =
      if containsAce w.state.classDefault deny then (.ok (), w)
      else
        match insertFirstAce w.state.classDefault deny with
        | .error e => (.error e, w)
        | .ok updated => (.ok (), ⟨{ w.state with classDefault := updated }, w.writes + 1⟩) := by
  obtain ⟨r, hr, heq⟩ := classDefault_eq clearPrinter ou w.state
  have hread : Readable r := readable_single (clearRecord_readable _ _ _ _ _) hr
  have hup : clearPrinter.up w.state
      (attributeArgs (userClass w.state.schemaDn.1) "defaultSecurityDescriptor") = true := rfl
  have hmodify : ∀ updated : String, (clearPrinter.tools ou).ldbmodify w.state
      (modifyHead w.state.schemaDn.1 ++ updated ++ modifyTail) [schemaOption] =
        .ok { w.state with classDefault := updated } := by
    intro updated
    change clearPrinter.ldbmodify w.state _ [schemaOption] = _
    unfold Printer.ldbmodify
    rw [modify_value]
    rfl
  unfold denyClassDefault
  rw [heq, if_pos hup, if_pos hread, shown_bytesOf hsafe]
  dsimp only
  by_cases hholds : containsAce w.state.classDefault deny = true
  · rw [if_pos hholds, if_pos hholds]
  · rw [if_neg hholds, if_neg hholds]
    cases hinsert : insertFirstAce w.state.classDefault deny with
    | error e => rfl
    | ok updated =>
      dsimp only
      rw [hmodify updated]

/-- A run with such searches comes to its sweep, once the class default is done with. -/
theorem run_clear {g : String} {w w₁ : Work Sam}
    (hschema : isSafe (bytesOf w.state.schemaDn.1) = true)
    (hguid : guid (shown w.state.identityGuid) = .ok g)
    (hclass : denyClassDefault (clearPrinter.tools ou) w.state.schemaDn.1 (denyText g) w =
      (.ok (), w₁)) :
    denySelfIdentityWrite (clearPrinter.tools ou) ou w =
      sweep (clearPrinter.tools ou) (denyText g)
        ((w₁.state.users.map clearUser).filterMap (Record.entryBy escaped)) w₁ := by
  have hup : ∀ s args, clearPrinter.up s args = true := fun _ _ => rfl
  have hroot : schemaDn (clearPrinter.tools ou) w.state = .ok w.state.schemaDn.1 := by
    obtain ⟨r, hr, heq⟩ := schemaDn_eq clearPrinter ou w.state
    rw [heq, shown_bytesOf hschema]
    have hread : Readable r := readable_single (clearRecord_readable _ _ _ _ _) hr
    rw [if_pos (hup _ _), if_pos hread]
  have hidentity : identityAttributeGuid (clearPrinter.tools ou) w.state w.state.schemaDn.1 =
      .ok g := by
    obtain ⟨r, hr, heq⟩ := identityAttributeGuid_eq clearPrinter ou w.state w.state.schemaDn.1
    have hread : Readable r := readable_single (clearRecord_readable _ _ _ _ _) hr
    rw [heq, if_pos (hup _ _), if_pos rfl, if_pos hread, hguid]
  have husers : search (clearPrinter.tools ou) w₁.state (usersArgs ou) =
      .ok ((w₁.state.users.map clearUser).filterMap (Record.entryBy escaped)) := by
    rw [search_users, if_pos (hup _ _), entries, String.toList_ofList, entriesBy_print]
    change Except.ok ((documentOf (w₁.state.users.map clearUser)).records.filterMap _) = _
    rw [documentOf_records]
  unfold denySelfIdentityWrite
  rw [hroot]
  dsimp only
  rw [hidentity]
  dsimp only
  rw [hclass]
  dsimp only
  rw [husers]

omit [UnicodeTables] in
/-- Such users are printed one by one. -/
theorem clearUsers (os : List Secured) : List.Forall₂ UserRecord (os.map clearUser) os := by
  rw [List.forall₂_map_left_iff, List.forall₂_same]
  exact fun o _ => clearRecord_of _ _ _ _ _

/-- A run with such searches succeeds, if every name and the class default are safe. -/
theorem run_clear_ok {g : String} {s : Sam} {d : Descriptor} {acl : Acl}
    (hschema : isSafe (bytesOf s.schemaDn.1) = true) (hguid : guid (shown s.identityGuid) = .ok g)
    (hd : s.classDefault = String.ofList d.print) (hacl : d.dacl = some acl) (hne : acl.aces ≠ [])
    (hprint : Printable d.print) (hnames : ∀ o ∈ s.users, isSafe (bytesOf o.dn.1) = true) :
    (denySelfIdentityWrite (clearPrinter.tools ou) ou ⟨s, 0⟩).1 = .ok () := by
  have htext : denyText g = String.ofList (denyAce g).text := (String.ofList_toList).symm
  have hsafe : isSafe (bytesOf s.classDefault) = true := by
    rw [hd, isSafe_print]
    exact hprint
  have hinsert : insertFirstAce s.classDefault (denyText g) =
      .ok (String.ofList (d.prepend (denyAce g)).print) := by
    unfold insertFirstAce
    rw [hd, htext, String.toList_ofList, String.toList_ofList, insertAt_print _ hacl hne]
  have hclass := @class_clear _ ou (denyText g) ⟨s, 0⟩ hsafe
  obtain ⟨w₁, hw₁, husers⟩ : ∃ w₁ : Work Sam,
      denyClassDefault (clearPrinter.tools ou) s.schemaDn.1 (denyText g) ⟨s, 0⟩ = (.ok (), w₁) ∧
        w₁.state.users = s.users := by
    rw [hclass]
    by_cases hholds : containsAce s.classDefault (denyText g) = true
    · rw [if_pos hholds]
      exact ⟨_, rfl, rfl⟩
    · rw [if_neg hholds, hinsert]
      exact ⟨_, rfl, rfl⟩
  have hrun := @run_clear _ ou g ⟨s, 0⟩ w₁ hschema hguid hw₁
  have hsweep := @sweep_up _ clearPrinter ou (denyAce g) _ _ (clearUsers w₁.state.users)
    (fun _ _ => rfl) w₁
    (by
      intro o ho
      obtain ⟨q, hq, rfl⟩ := List.mem_map.mp ho
      refine hnames q.2 ?_
      rw [← husers]
      exact (List.of_mem_zip (List.mem_filter.mp hq).1).2)
    (fun o ho => List.mem_map_of_mem (List.mem_append_left _ ho))
  rw [hrun, htext, hsweep]

end Clear

section InForce

variable [UnicodeTables]

/-- What a run that succeeds is to leave behind: the entry in force on the class default and on
every user, nothing else changed, and nothing to write the next time, however that is printed. -/
structure Denied (ou : String) (a : Ace) (d : Descriptor) (s s' : Sam) : Prop where
  classDefault : ∃ d', s'.classDefault = String.ofList d'.print ∧ Kept a d d' ∧ d'.InForce a
  users : List.Forall₂ (fun o o' => o'.dn = o.dn ∧ Kept a o.descriptor o'.descriptor ∧
    o'.descriptor.InForce a) s.users s'.users
  others : s'.others = s.others
  schema : s'.schemaDn = s.schemaDn ∧ s'.identityDn = s.identityDn ∧
    s'.identityGuid = s.identityGuid
  again : ∀ p' : Printer, (denySelfIdentityWrite (p'.tools ou) ou ⟨s', 0⟩).2 = ⟨s', 0⟩

/-- What makes that so: the lists of users are printed as they are, and the entry is in force
already on whatever is passed over, which is a user one of whose lines is misread, and what
holds the text of the entry anywhere. -/
structure Passable (p : Printer) (a : Ace) (d : Descriptor) (s : Sam) : Prop where
  classDefault : containsAce (String.ofList d.print) (String.ofList a.text) = true → d.InForce a
  printable : ∀ o ∈ s.users, isSafe (bytesOf o.dacl) = true
  users : ∀ q ∈ (p.users s.users).records.zip s.users,
    ¬ Readable q.1 ∨ containsAce q.2.dacl (String.ofList a.text) = true →
      q.2.descriptor.InForce a

omit [UnicodeTables] in
/-- An entry that can be printed keeps a list safe. -/
theorem isSafe_kept {a : Ace} (ha : Printable a.text) {o o' : Secured}
    (h : Kept a o.descriptor o'.descriptor) :
    isSafe (bytesOf o'.dacl) = true ↔ isSafe (bytesOf o.dacl) = true := by
  unfold Secured.dacl
  rw [isSafe_print, isSafe_print]
  rcases h with h | h
  · rw [h]
  · rw [h]
    exact printable_prepend o.descriptor.daclOnly ha

section Lower

variable (hascii : ∀ c : Char, c.toNat < 128 → UnicodeTables.toLowercase c = [c.toLower])
include hascii

/-- A descriptor in which the entry is in force holds its text. -/
theorem containsAce_inForce {a : Ace} (ha : Printable a.text) {d : Descriptor} (h : d.InForce a) :
    containsAce (String.ofList d.print) (String.ofList a.text) = true := by
  obtain ⟨acl, before, own, after, hacl, haces, hsame, _⟩ := h
  have hprint : d.print = (part 'O' Subtype.val d.owner ++ part 'G' Subtype.val d.group ++
      'D' :: ':' :: acl.flags.flatMap AclFlag.print ++ before.flatMap Ace.text) ++ own.text ++
        (after.flatMap Ace.text ++ part 'S' Acl.print d.sacl) := by
    simp [Descriptor.print, hacl, part, Acl.print, haces]
  rw [hprint]
  exact containsAce_of_same hascii hsame ha _ _

/-- A user in whose list the entry is in force holds its text. -/
theorem containsAce_user {a : Ace} (ha : Printable a.text) {o : Secured}
    (h : o.descriptor.InForce a) : containsAce o.dacl (String.ofList a.text) = true := by
  refine containsAce_inForce hascii ha ?_
  obtain ⟨acl, before, own, after, hacl, hrest⟩ := h
  exact ⟨acl, before, own, after, hacl, hrest⟩

end Lower

omit [UnicodeTables] in
/-- Every element has its partner. -/
theorem partner {α β : Type} {R : α → β → Prop} {xs : List α} {ys : List β}
    (h : List.Forall₂ R xs ys) {y : β} (hy : y ∈ ys) : ∃ x ∈ xs, R x y := by
  induction h with
  | nil => cases hy
  | @cons x y' xs ys hr _ ih =>
    rcases List.mem_cons.mp hy with rfl | hy
    · exact ⟨x, List.mem_cons_self, hr⟩
    · obtain ⟨x', hx', hr'⟩ := ih hy
      exact ⟨x', List.mem_cons_of_mem _ hx', hr'⟩

omit [UnicodeTables] in
/-- What is printed of each user. -/
theorem mem_users (p : Printer) {os : List Secured} {o : Secured} (h : o ∈ os) :
    ∃ r, (r, o) ∈ (p.users os).records.zip os ∧ UserRecord r o := by
  have hall : ∀ {rs : List Record} {os : List Secured}, List.Forall₂ UserRecord rs os →
      o ∈ os → ∃ r, (r, o) ∈ rs.zip os ∧ UserRecord r o := by
    intro rs os hrec
    induction hrec with
    | nil => intro h; cases h
    | @cons r o' rs os hr _ ih =>
      intro h
      rcases List.mem_cons.mp h with rfl | h
      · exact ⟨r, List.mem_cons_self, hr⟩
      · obtain ⟨r', hmem, hr'⟩ := ih h
        exact ⟨r', List.mem_cons_of_mem _ hmem, hr'⟩
  exact hall (p.users_records os) h

omit [UnicodeTables] in
/-- The name of a user stands with one record only. -/
theorem zip_unique (p : Printer) {s : Sam} {q q' : Record × Secured}
    (hq : q ∈ (p.users s.users).records.zip s.users)
    (hq' : q' ∈ (p.users s.users).records.zip s.users) (hdn : q.2.dn = q'.2.dn) : q = q' := by
  have hlength := (p.users_records s.users).length_eq
  have hnodup : (((p.users s.users).records.zip s.users).map fun q => q.2.dn).Nodup := by
    have hsnd : ((p.users s.users).records.zip s.users).map (fun q => q.2.dn) =
        s.users.map Secured.dn := by
      have hmap := List.map_map (f := Prod.snd) (g := Secured.dn)
        (l := (p.users s.users).records.zip s.users)
      rw [List.map_snd_zip (by omega)] at hmap
      exact hmap.symm
    rw [hsnd]
    have hdistinct := s.distinct
    rw [List.map_append] at hdistinct
    exact (List.nodup_append.mp hdistinct).1
  exact List.inj_on_of_nodup_map hnodup hq hq' hdn

/-- The names given the entry are those of users whose record is read and who are not judged
to hold it. -/
theorem mem_given (p : Printer) {s : Sam} {deny : String} {dn : Dn} :
    dn ∈ (given deny (p.users s.users).records s.users).map Secured.dn ↔
      ∃ q ∈ (p.users s.users).records.zip s.users, Given deny q.1 q.2 ∧ q.2.dn = dn := by
  unfold given
  simp only [List.mem_map, List.mem_filter, decide_eq_true_eq]
  constructor
  · rintro ⟨o, ⟨q, ⟨hq, hgiven⟩, rfl⟩, rfl⟩
    exact ⟨q, hq, hgiven, rfl⟩
  · rintro ⟨q, hq, hgiven, rfl⟩
    exact ⟨q.2, ⟨q, ⟨hq, hgiven⟩, rfl⟩, rfl⟩

/-- What a run that succeeds did: the class default, the users given the entry, and the rest. -/
structure Ran (p : Printer) (g : String) (d : Descriptor) (s s' : Sam) : Prop where
  schemaDn : isSafe (bytesOf s.schemaDn.1) = true
  printable : Printable d.print
  classDefault : (containsAce (String.ofList d.print) (denyText g) = true ∧
      s'.classDefault = String.ofList d.print) ∨
    (containsAce (String.ofList d.print) (denyText g) = false ∧
      s'.classDefault = String.ofList (d.prepend (denyAce g)).print)
  users : s'.users = s.users.map (prependIf (denyAce g)
    ((given (denyText g) (p.users s.users).records s.users).map Secured.dn))
  others : s'.others = s.others
  schema : s'.schemaDn = s.schemaDn ∧ s'.identityDn = s.identityDn ∧
    s'.identityGuid = s.identityGuid
  safe : ∀ q ∈ (p.users s.users).records.zip s.users, Given (denyText g) q.1 q.2 →
    isSafe (bytesOf q.2.dn.1) = true

/-- What a run that succeeds did. -/
theorem ran (hascii : ∀ c : Char, c.toNat < 128 → UnicodeTables.toLowercase c = [c.toLower])
    {p : Printer} {ou : String} {s : Sam} {d : Descriptor} {acl : Acl}
    (hd : s.classDefault = String.ofList d.print) (hacl : d.dacl = some acl) (hne : acl.aces ≠ [])
    {g : String} (hg : guid (shown s.identityGuid) = .ok g) {w' : Work Sam}
    (hrun : denySelfIdentityWrite (p.tools ou) ou ⟨s, 0⟩ = (.ok (), w')) :
    Ran p g d s w'.state := by
  have htext : denyText g = String.ofList (denyAce g).text := (String.ofList_toList).symm
  have hprint := printable_denyAce hg
  obtain ⟨hschema, g', w₁, hg', hclass, hsweep⟩ := run_ok p ou hrun
  have hsame : g' = g := Except.ok.inj (hg'.symm.trans hg)
  rw [hsame] at hclass hsweep
  rw [htext] at hclass hsweep
  obtain ⟨hdprint, hcases⟩ := class_ok p ou hascii hprint hd hacl hne hclass
  have hstate : w₁.state.users = s.users ∧ w₁.state.others = s.others ∧
      w₁.state.schemaDn = s.schemaDn ∧ w₁.state.identityDn = s.identityDn ∧
        w₁.state.identityGuid = s.identityGuid := by
    rcases hcases with ⟨_, rfl⟩ | ⟨_, rfl⟩
    · exact ⟨rfl, rfl, rfl, rfl, rfl⟩
    · exact ⟨rfl, rfl, rfl, rfl, rfl⟩
  obtain ⟨husers, hothers, hdn, hidn, hguid⟩ := hstate
  rw [husers] at hsweep
  obtain ⟨hsafe, hw'⟩ := sweep_ok p ou (p.users_records s.users) hsweep
  have hdistinct := s.distinct
  rw [List.map_append, List.nodup_append] at hdistinct
  have hsub : ((given (String.ofList (denyAce g).text) (p.users s.users).records s.users).map
      Secured.dn).Nodup := by
    refine List.Nodup.sublist ?_ hdistinct.1
    refine List.Sublist.map _ ?_
    unfold given
    have hlength := (p.users_records s.users).length_eq
    have hzip : ((p.users s.users).records.zip s.users).map Prod.snd = s.users :=
      List.map_snd_zip (by omega)
    exact (List.filter_sublist.map Prod.snd).trans (by rw [hzip])
  have hgiven := prependAll_given (denyAce g) hsub w₁.state
  have hw : w'.state = w₁.state.prependAll (denyAce g)
      (given (String.ofList (denyAce g).text) (p.users s.users).records s.users) := by rw [hw']
  rw [← hw] at hgiven
  rw [← htext] at hgiven hsafe hcases
  refine ⟨hschema, hdprint, ?_, ?_, ?_, ?_, ?_⟩
  · rw [hgiven.classDefault]
    rcases hcases with ⟨hcontains, rfl⟩ | ⟨hcontains, rfl⟩
    · exact Or.inl ⟨hcontains, hd⟩
    · exact Or.inr ⟨hcontains, rfl⟩
  · rw [hgiven.users, husers]
  · rw [hgiven.others, hothers]
    have hid : ∀ o ∈ s.others, prependIf (denyAce g) ((given (denyText g)
        (p.users s.users).records s.users).map Secured.dn) o = id o := by
      intro o ho
      unfold prependIf
      rw [if_neg]
      · rfl
      · intro hmem
        obtain ⟨q, hq, _, hqdn⟩ := (mem_given p).mp hmem
        exact hdistinct.2.2 q.2.dn (List.mem_map_of_mem (List.of_mem_zip hq).2) o.dn
          (List.mem_map_of_mem ho) hqdn
    rw [List.map_congr_left hid, List.map_id]
  · rw [hgiven.schemaDn, hgiven.identityDn, hgiven.identityGuid]
    exact ⟨hdn, hidn, hguid⟩
  · intro q hq hgive
    refine hsafe q.2 ?_
    unfold given
    exact List.mem_map.mpr ⟨q, List.mem_filter.mpr ⟨hq, by simpa using hgive⟩, rfl⟩

/-- A user after a run is the user before it, with the entry first if it was given. -/
theorem prependIf_given {p : Printer} {g : String} {s : Sam} {q : Record × Secured}
    (hq : q ∈ (p.users s.users).records.zip s.users) :
    prependIf (denyAce g)
        ((given (denyText g) (p.users s.users).records s.users).map Secured.dn) q.2 =
      if Given (denyText g) q.1 q.2 then
        { q.2 with descriptor := q.2.descriptor.prepend (denyAce g) }
      else q.2 := by
  unfold prependIf
  by_cases hgiven : Given (denyText g) q.1 q.2
  · rw [if_pos hgiven, if_pos ((mem_given p).mpr ⟨q, hq, hgiven, rfl⟩)]
  · rw [if_neg hgiven, if_neg]
    intro hmem
    obtain ⟨q', hq', hgiven', hdn⟩ := (mem_given p).mp hmem
    rw [zip_unique p hq' hq hdn] at hgiven'
    exact hgiven hgiven'

/-- The condition makes the run do what it is to do. -/
theorem Ran.denied (hascii : ∀ c : Char, c.toNat < 128 → UnicodeTables.toLowercase c = [c.toLower])
    {p : Printer} {ou : String} {g : String} {d : Descriptor} {s s' : Sam} (h : Ran p g d s s')
    (hg : guid (shown s.identityGuid) = .ok g) (hpass : Passable p (denyAce g) d s) :
    Denied ou (denyAce g) d s s' := by
  have htext : String.ofList (denyAce g).text = denyText g := String.ofList_toList
  have hprint := printable_denyAce hg
  have hcontains : ∀ q ∈ (p.users s.users).records.zip s.users,
      ¬ Given (denyText g) q.1 q.2 → q.2.descriptor.InForce (denyAce g) := by
    intro q hq hnot
    refine hpass.users q hq ?_
    by_cases hread : Readable q.1
    · refine Or.inr ?_
      have hsafe := hpass.printable q.2 (List.of_mem_zip hq).2
      by_contra hno
      refine hnot ⟨hread, ?_⟩
      rw [shown_bytesOf hsafe, ← htext]
      simpa using hno
    · exact Or.inl hread
  have hclass : ∃ d', s'.classDefault = String.ofList d'.print ∧ Kept (denyAce g) d d' ∧
      d'.InForce (denyAce g) := by
    rcases h.classDefault with ⟨hholds, htext'⟩ | ⟨_, htext'⟩
    · exact ⟨d, htext', Or.inl rfl, hpass.classDefault (by rw [htext]; exact hholds)⟩
    · exact ⟨_, htext', Or.inr rfl, inForce_prepend _ _⟩
  have husers : ∀ o ∈ s.users, (prependIf (denyAce g)
      ((given (denyText g) (p.users s.users).records s.users).map Secured.dn) o).dn = o.dn ∧
        Kept (denyAce g) o.descriptor (prependIf (denyAce g)
          ((given (denyText g) (p.users s.users).records s.users).map Secured.dn) o).descriptor ∧
            (prependIf (denyAce g) ((given (denyText g) (p.users s.users).records s.users).map
              Secured.dn) o).descriptor.InForce (denyAce g) := by
    intro o ho
    obtain ⟨r, hq, _⟩ := mem_users p ho
    rw [prependIf_given hq]
    by_cases hgiven : Given (denyText g) r o
    · rw [if_pos hgiven]
      exact ⟨rfl, Or.inr rfl, inForce_prepend _ _⟩
    · rw [if_neg hgiven]
      exact ⟨rfl, Or.inl rfl, hcontains _ hq hgiven⟩
  refine ⟨hclass, ?_, h.others, h.schema, ?_⟩
  · rw [h.users, List.forall₂_map_right_iff, List.forall₂_same]
    exact husers
  · intro p'
    obtain ⟨d', htext', hkept, hforce⟩ := hclass
    refine run_quiet p' ou (by rw [h.schema.2.2]; exact hg) ⟨?_, ?_, ?_⟩
    · rw [htext', isSafe_print]
      rcases hkept with rfl | rfl
      · exact h.printable
      · exact (printable_prepend d hprint).mpr h.printable
    · rw [htext', ← htext]
      exact containsAce_inForce hascii hprint hforce
    · intro o' ho'
      rw [h.users] at ho'
      obtain ⟨o, ho, hmap⟩ := List.mem_map.mp ho'
      have hall := husers o ho
      rw [hmap] at hall
      obtain ⟨_, hkept, hforce⟩ := hall
      rw [← htext]
      exact ⟨(isSafe_kept hprint hkept).mpr (hpass.printable o ho),
        containsAce_user hascii hprint hforce⟩

omit [UnicodeTables] in
/-- A value that is not safe is read, but not as it was printed. -/
theorem clear_of_unsafe {dn value : List UInt8} {attr : String} {r : Record}
    (h : RecordOf dn attr value r) (hdn : isSafe dn = false) (hvalue : isSafe value = false) :
    Readable r := by
  obtain ⟨l, hl, _, hlvalue⟩ := h.lines
  intro line hline hplain
  rw [h.safely line hline] at hplain
  rw [Record.all, hl] at hline
  rcases List.mem_cons.mp hline with rfl | hline
  · rw [h.dn, hdn] at hplain
    cases hplain
  · rw [List.mem_singleton.mp hline, hlvalue, hvalue] at hplain
    cases hplain

omit [UnicodeTables] in
/-- One more entry makes a descriptor longer. -/
theorem length_prepend (d : Descriptor) (a : Ace) :
    d.print.length < (d.prepend a).print.length := by
  have hpos : 0 < a.text.length := by
    refine List.length_pos_iff.mpr ?_
    intro hnil
    have hopened := a.opened
    rw [hnil] at hopened
    cases hopened
  obtain ⟨owner, group, dacl, sacl⟩ := d
  cases dacl with
  | none =>
    simp [Descriptor.print, Descriptor.prepend, part, Acl.print]
    omega
  | some acl =>
    simp [Descriptor.print, Descriptor.prepend, part, Acl.print]
    omega

/-- Where nothing is left to write, however it is printed, every list is printed as it is:
a list that is not would be given the entry once more. -/
theorem Ran.printable_users
    (hascii : ∀ c : Char, c.toNat < 128 → UnicodeTables.toLowercase c = [c.toLower])
    {p : Printer} {ou : String} {g : String} {d : Descriptor} {s s' : Sam} (h : Ran p g d s s')
    (hg : guid (shown s.identityGuid) = .ok g) (hdenied : Denied ou (denyAce g) d s s') :
    ∀ o ∈ s.users, isSafe (bytesOf o.dacl) = true := by
  have htext : String.ofList (denyAce g).text = denyText g := String.ofList_toList
  have hprint := printable_denyAce hg
  have hescaped : ∀ x : Secured, isSafe (bytesOf x.dacl) = false →
      containsAce (shown (bytesOf x.dacl)) (denyText g) = false := by
    intro x hx
    unfold shown
    rw [hx, if_neg (by simp), ← htext]
    exact containsAce_escaped hascii _ hprint _
  -- Every user now, with the user it was.
  have hwas : ∀ x' ∈ s'.users, ∃ x ∈ s.users, x'.dn = x.dn ∧
      Kept (denyAce g) x.descriptor x'.descriptor ∧ x'.descriptor.InForce (denyAce g) := by
    intro x' hx'
    exact partner hdenied.users hx'
  have hsafe : ∀ x' ∈ s'.users, containsAce (shown (bytesOf x'.dacl)) (denyText g) = false →
      isSafe (bytesOf x'.dn.1) = true := by
    intro x' hx' hlacks
    obtain ⟨x, hx, hdn, hkept, hforce⟩ := hwas x' hx'
    cases hdacl : isSafe (bytesOf x'.dacl) with
    | true =>
      rw [shown_bytesOf hdacl, ← htext, containsAce_user hascii hprint hforce] at hlacks
      cases hlacks
    | false =>
      have hdacl' : isSafe (bytesOf x.dacl) = false := by
        have hiff := isSafe_kept hprint hkept
        rw [hdacl] at hiff
        simpa using hiff
      obtain ⟨r, hq, hr⟩ := mem_users p hx
      rw [hdn]
      cases hname : isSafe (bytesOf x.dn.1) with
      | true => rfl
      | false =>
        have hread : Readable r := clear_of_unsafe hr hname hdacl'
        have hgive : Given (denyText g) r x := ⟨hread, hescaped x hdacl'⟩
        have hyes : isSafe (bytesOf x.dn.1) = true := h.safe (r, x) hq hgive
        rw [hname] at hyes
        exact hyes
  have hclass : isSafe (bytesOf s'.classDefault) = true ∧
      containsAce s'.classDefault (denyText g) = true := by
    obtain ⟨d', htext', hkept, hforce⟩ := hdenied.classDefault
    rw [htext', isSafe_print, ← htext]
    refine ⟨?_, containsAce_inForce hascii hprint hforce⟩
    rcases hkept with rfl | rfl
    · exact h.printable
    · exact (printable_prepend d hprint).mpr h.printable
  have hquiet : denyClassDefault (clearPrinter.tools ou) s'.schemaDn.1 (denyText g) ⟨s', 0⟩ =
      (.ok (), ⟨s', 0⟩) := by
    have heq := @class_clear _ ou (denyText g) ⟨s', 0⟩ hclass.1
    rw [heq, if_pos hclass.2]
  have hclear := @run_clear _ ou g ⟨s', 0⟩ _ (by rw [h.schema.1]; exact h.schemaDn)
    (by rw [h.schema.2.2]; exact hg) hquiet
  have hgiven : ∀ x' ∈ given (denyText g) (s'.users.map clearUser) s'.users,
      x' ∈ s'.users ∧ containsAce (shown (bytesOf x'.dacl)) (denyText g) = false := by
    intro x' hx'
    obtain ⟨q, hq, rfl⟩ := List.mem_map.mp hx'
    obtain ⟨hzip, hgive⟩ := List.mem_filter.mp hq
    have hgive : Given (denyText g) q.1 q.2 := by simpa using hgive
    exact ⟨(List.of_mem_zip hzip).2, hgive.2⟩
  rw [← htext] at hgiven hclear
  have hup := sweep_up clearPrinter ou (clearUsers s'.users) (fun _ _ => rfl) (w := ⟨s', 0⟩)
    (fun x' hx' => hsafe x' (hgiven x' hx').1 (by rw [← htext]; exact (hgiven x' hx').2))
    (fun x' hx' => List.mem_map_of_mem (List.mem_append_left _ hx'))
  have hagain := hdenied.again clearPrinter
  rw [hclear, hup] at hagain
  have hnone : (given (String.ofList (denyAce g).text) (s'.users.map clearUser) s'.users).length =
      0 := by
    have hwrites := congrArg Work.writes hagain
    simpa using hwrites
  intro o ho
  by_contra hno
  obtain ⟨o', ho', hkept⟩ := partner hdenied.users.flip ho
  have hdacl : isSafe (bytesOf o'.dacl) = false := by
    have hiff := isSafe_kept hprint hkept.2.1
    have hdacl' : ¬ isSafe (bytesOf o'.dacl) = true := fun hyes => hno (hiff.mp hyes)
    simpa using hdacl'
  have hmem : o' ∈ given (String.ofList (denyAce g).text) (s'.users.map clearUser) s'.users := by
    refine List.mem_map.mpr ⟨(clearUser o', o'), List.mem_filter.mpr ⟨?_, ?_⟩, rfl⟩
    · have hzip : ∀ os : List Secured, o' ∈ os → (clearUser o', o') ∈ (os.map clearUser).zip os := by
        intro os
        induction os with
        | nil => intro hmem; cases hmem
        | cons x os ih =>
          intro hmem
          rcases List.mem_cons.mp hmem with rfl | hmem
          · exact List.mem_cons_self
          · exact List.mem_cons_of_mem _ (ih hmem)
      exact hzip s'.users ho'
    · have hgive : Given (String.ofList (denyAce g).text) (clearUser o') o' :=
        ⟨clearRecord_readable _ _ _ _ _, by rw [htext]; exact hescaped o' hdacl⟩
      simpa using hgive
  rw [List.length_eq_zero_iff.mp hnone] at hmem
  cases hmem

/-- A run that did what it is to do met the condition. -/
theorem Ran.passable
    (hascii : ∀ c : Char, c.toNat < 128 → UnicodeTables.toLowercase c = [c.toLower])
    {p : Printer} {ou : String} {g : String} {d : Descriptor} {s s' : Sam} (h : Ran p g d s s')
    (hg : guid (shown s.identityGuid) = .ok g) (hdenied : Denied ou (denyAce g) d s s') :
    Passable p (denyAce g) d s := by
  have htext : String.ofList (denyAce g).text = denyText g := String.ofList_toList
  have hprint := printable_denyAce hg
  have husers : ∀ o ∈ s.users, (prependIf (denyAce g) ((given (denyText g)
      (p.users s.users).records s.users).map Secured.dn) o).descriptor.InForce (denyAce g) := by
    have hall := hdenied.users
    rw [h.users, List.forall₂_map_right_iff, List.forall₂_same] at hall
    exact fun o ho => (hall o ho).2.2
  have hpassed : ∀ q ∈ (p.users s.users).records.zip s.users, ¬ Given (denyText g) q.1 q.2 →
      q.2.descriptor.InForce (denyAce g) := by
    intro q hq hnot
    have hforce := husers q.2 (List.of_mem_zip hq).2
    rw [prependIf_given hq, if_neg hnot] at hforce
    exact hforce
  have hsafe := h.printable_users hascii hg hdenied
  refine ⟨?_, hsafe, ?_⟩
  · intro hholds
    obtain ⟨d', htext', hkept, hforce⟩ := hdenied.classDefault
    rw [htext] at hholds
    rcases h.classDefault with ⟨_, hsame⟩ | ⟨hno, _⟩
    · rw [hsame] at htext'
      have hlength := congrArg String.length htext'
      rw [String.length_ofList, String.length_ofList] at hlength
      rcases hkept with rfl | rfl
      · exact hforce
      · have hlonger := length_prepend d (denyAce g)
        omega
    · rw [hno] at hholds
      cases hholds
  · intro q hq hpass
    refine hpassed q hq ?_
    rintro ⟨hread, hno⟩
    rcases hpass with hunread | hholds
    · exact hunread hread
    · rw [shown_bytesOf (hsafe q.2 (List.of_mem_zip hq).2), ← htext, hholds] at hno
      cases hno

/-- After a run that succeeds, the entry is in force on the class default and on every user,
with nothing else changed and nothing left to write, exactly if it was in force already on
whatever was passed over: a user of whom a line is misread, and what holds the text of the
entry anywhere. The lists of users must be printed as they are. -/
theorem denied_iff (hascii : ∀ c : Char, c.toNat < 128 → UnicodeTables.toLowercase c = [c.toLower])
    (p : Printer) (ou : String) {s : Sam} {d : Descriptor} {acl : Acl}
    (hd : s.classDefault = String.ofList d.print) (hacl : d.dacl = some acl) (hne : acl.aces ≠ [])
    {g : String} (hg : guid (shown s.identityGuid) = .ok g) {w' : Work Sam}
    (hrun : denySelfIdentityWrite (p.tools ou) ou ⟨s, 0⟩ = (.ok (), w')) :
    Denied ou (denyAce g) d s w'.state ↔ Passable p (denyAce g) d s := by
  have hran := ran hascii hd hacl hne hg hrun
  exact ⟨hran.passable hascii hg, hran.denied hascii hg⟩

end InForce

section Sample

/-- The unit the users are below. -/
def sampleOu : String := "OU=Entra,DC=example,DC=site"

/-- The identifier of the identity attribute. -/
def sampleGuid : String := "bf967972-0de6-11d0-a285-00aa003049e2"

/-- An entry that lets the object itself write. -/
def sampleAllow : Ace := ⟨"(A;;RPWP;;;PS)".toList, by decide, by decide⟩

/-- A descriptor of entries that decide access. -/
def sampleDescriptor (aces : List Ace) : Descriptor := ⟨none, none, some ⟨[], aces⟩, none⟩

/-- The bytes of the identity attribute's identifier. -/
def sampleIdentity : List UInt8 :=
  [0x72, 0x79, 0x96, 0xbf, 0xe6, 0x0d, 0xd0, 0x11, 0xa2, 0x85, 0x00, 0xaa, 0x00, 0x30, 0x49, 0xe2]

/-- A user whose list holds these entries. -/
def sampleUser (aces : List Ace) : Secured :=
  ⟨⟨"CN=anna,OU=Entra,DC=example,DC=site", by decide⟩, sampleDescriptor aces⟩

/-- A directory with one user, whose list holds these entries. -/
def sampleSam (aces : List Ace) : Sam where
  schemaDn := ⟨"CN=Schema,CN=Configuration,DC=example,DC=site", by decide⟩
  identityDn := ⟨"CN=ms-DS-External-Directory-Object-Id", by decide⟩
  identityGuid := sampleIdentity
  classDefault := String.ofList (sampleDescriptor [sampleAllow]).print
  users := [sampleUser aces]
  others := []
  distinct := by simp

/-- The identifier is read from its bytes. -/
theorem sampleGuid_read : @guid asciiTables (shown sampleIdentity) = .ok sampleGuid := by
  decide

/-- The run over a directory of one user. -/
def sampleRun (aces : List Ace) : Except String Unit × Work Sam :=
  @denySelfIdentityWrite asciiTables _ (clearPrinter.tools sampleOu) sampleOu ⟨sampleSam aces, 0⟩

/-- The run over a directory of one user succeeds. -/
theorem sampleRun_ok (aces : List Ace) : (sampleRun aces).1 = .ok () := by
  let _ := asciiTables
  refine run_clear_ok sampleOu ?_ sampleGuid_read rfl rfl (by simp) ?_ ?_
  · have hschema : isSafe (bytesOf "CN=Schema,CN=Configuration,DC=example,DC=site") = true := by
      decide
    exact hschema
  · exact printable_of_all (by decide)
  · intro o ho
    have hname : isSafe (bytesOf "CN=anna,OU=Entra,DC=example,DC=site") = true := by
      decide
    rw [List.mem_singleton.mp ho]
    exact hname

/-- A run that succeeds, with what it left. -/
theorem sampleRun_eq (aces : List Ace) :
    @denySelfIdentityWrite asciiTables _ (clearPrinter.tools sampleOu) sampleOu
      ⟨sampleSam aces, 0⟩ = (.ok (), (sampleRun aces).2) := by
  have hpair : ∀ x : Except String Unit × Work Sam, x.1 = .ok () → x = (.ok (), x.2) := by
    rintro ⟨outcome, work⟩ rfl
    rfl
  exact hpair (sampleRun aces) (sampleRun_ok aces)

/-- What is printed of the one user. -/
theorem sampleUser_printed (aces : List Ace) : (clearUser (sampleUser aces), sampleUser aces) ∈
    (clearPrinter.users (sampleSam aces).users).records.zip (sampleSam aces).users := by
  have hrecords : (clearPrinter.users (sampleSam aces).users).records =
      [clearUser (sampleUser aces)] := documentOf_records _
  rw [hrecords]
  exact List.mem_cons_self

/-- A user whose list holds the entry behind one that lets it write is passed over: the run
succeeds, and the entry is not in force. -/
theorem behind_passed_over :
    (sampleRun [sampleAllow, denyAce sampleGuid]).1 = .ok () ∧
      ¬ @Denied asciiTables sampleOu (denyAce sampleGuid) (sampleDescriptor [sampleAllow])
        (sampleSam [sampleAllow, denyAce sampleGuid])
        (sampleRun [sampleAllow, denyAce sampleGuid]).2.state := by
  refine ⟨sampleRun_ok _, ?_⟩
  intro hdenied
  let _ := asciiTables
  have hran : Ran clearPrinter sampleGuid (sampleDescriptor [sampleAllow])
      (sampleSam [sampleAllow, denyAce sampleGuid])
        (sampleRun [sampleAllow, denyAce sampleGuid]).2.state :=
    ran (fun c _ => rfl) rfl rfl (by simp) sampleGuid_read (sampleRun_eq _)
  have hpass := hran.passable (fun c _ => rfl) sampleGuid_read hdenied
  have hholds : containsAce (sampleUser [sampleAllow, denyAce sampleGuid]).dacl
      (String.ofList (denyAce sampleGuid).text) = true := by decide +kernel
  obtain ⟨acl, before, own, after, hacl, haces, hsame, hbefore⟩ :=
    hpass.users _ (sampleUser_printed _) (Or.inr hholds)
  cases hacl
  cases before with
  | nil =>
    have hown : sampleAllow = own := (List.cons.inj haces).1
    rw [← hown] at hsame
    have hlength := congrArg List.length hsame
    rw [List.length_map, List.length_map] at hlength
    revert hlength
    decide
  | cons b before =>
    have hb : sampleAllow = b := (List.cons.inj haces).1
    have hlets := hbefore b List.mem_cons_self
    rw [← hb] at hlets
    revert hlets
    decide

/-- A user without the entry is given it, and nothing else is changed. -/
theorem bare_denied : @Denied asciiTables sampleOu (denyAce sampleGuid)
    (sampleDescriptor [sampleAllow]) (sampleSam [sampleAllow]) (sampleRun [sampleAllow]).2.state := by
  let _ := asciiTables
  refine (denied_iff (fun c _ => rfl) clearPrinter sampleOu rfl rfl (by simp) sampleGuid_read
    (sampleRun_eq _)).mpr ⟨?_, ?_, ?_⟩
  · intro hholds
    have hlacks : containsAce (String.ofList (sampleDescriptor [sampleAllow]).print)
        (String.ofList (denyAce sampleGuid).text) = false := by decide +kernel
    rw [hlacks] at hholds
    cases hholds
  · intro o ho
    rw [List.mem_singleton.mp ho]
    decide
  · intro q hq hpass
    have hrecords : (clearPrinter.users (sampleSam [sampleAllow]).users).records =
        [clearUser (sampleUser [sampleAllow])] := documentOf_records _
    rw [hrecords] at hq
    rw [List.mem_singleton.mp hq] at hpass
    rcases hpass with hunread | hholds
    · exact (hunread (clearUser_readable _)).elim
    · have hlacks : containsAce (sampleUser [sampleAllow]).dacl
          (String.ofList (denyAce sampleGuid).text) = false := by decide +kernel
      rw [hlacks] at hholds
      cases hholds

end Sample

end Kerbridge.Setup

import Kerbridge.ConfigSet
import Mathlib.Data.List.Pairwise

/-!
# Which units an accepted configuration gives its sources

The load refuses two sources that own one unit. A unit strictly beneath another
source's passes, and then, and only then, some name lies within both. Units that
are derived from the names never nest.
-/

namespace Kerbridge.ConfigSet

open UnicodeText DistinguishedName Fallible

section Units

variable [UnicodeTables]

/-- Whether a unit lies strictly beneath another. -/
def dnIsBelow (dn ou : String) : Bool := dnIsAtOrWithin dn ou && !dnEquals dn ou

/-- A name that lies within a unit reads, and so does the unit. -/
theorem reads_of_within {dn ou : String} (h : dnIsAtOrWithin dn ou = true) :
    Reads dn ∧ Reads ou := by
  obtain ⟨d, c, hd, hc, _⟩ := dnIsAtOrWithin_iff.mp h
  unfold Reads
  rw [hd, hc]
  exact ⟨rfl, rfl⟩

/-- A unit that reads lies within itself. -/
theorem within_self {ou : String} (h : Reads ou) : dnIsAtOrWithin ou ou = true := by
  obtain ⟨c, hc⟩ := Option.isSome_iff_exists.mp h
  exact dnIsAtOrWithin_iff.mpr ⟨c, c, hc, hc, List.suffix_refl c⟩

/-- Some name lies within two units exactly when one of them lies within the other. -/
theorem within_both_iff {a b : String} :
    (∃ dn, dnIsAtOrWithin dn a = true ∧ dnIsAtOrWithin dn b = true) ↔
      dnIsAtOrWithin a b = true ∨ dnIsAtOrWithin b a = true := by
  constructor
  · intro h
    obtain ⟨dn, ha, hb⟩ := h
    obtain ⟨d, x, hd, hx, hxd⟩ := dnIsAtOrWithin_iff.mp ha
    obtain ⟨d', y, hd', hy, hyd⟩ := dnIsAtOrWithin_iff.mp hb
    have heq : d = d' := Option.some.inj (hd.symm.trans hd')
    subst heq
    rcases List.suffix_or_suffix_of_suffix hxd hyd with hxy | hyx
    · exact Or.inr (dnIsAtOrWithin_iff.mpr ⟨y, x, hy, hx, hxy⟩)
    · exact Or.inl (dnIsAtOrWithin_iff.mpr ⟨x, y, hx, hy, hyx⟩)
  · intro h
    rcases h with h | h
    · exact ⟨a, within_self (reads_of_within h).1, h⟩
    · exact ⟨b, h, within_self (reads_of_within h).1⟩

/-- Lying within a unit is lying beneath it or being it. -/
theorem within_iff_below {dn ou : String} (hne : dnEquals dn ou = false) :
    dnIsAtOrWithin dn ou = dnIsBelow dn ou := by
  unfold dnIsBelow
  rw [hne, Bool.not_false, Bool.and_true]

/-- No unit lies strictly beneath itself. -/
theorem dnIsBelow_self (ou : String) : dnIsBelow ou ou = false := by
  unfold dnIsBelow
  cases hw : dnIsAtOrWithin ou ou with
  | false => rfl
  | true => rw [dnEquals_self (reads_of_within hw).1]; rfl

/-- A name lies strictly beneath a unit when the unit's components end its own and it
has more of them. -/
theorem dnIsBelow_iff {dn ou : String} : dnIsBelow dn ou = true ↔
    ∃ q c, q ≠ [] ∧ dnComponents dn = some (q ++ c) ∧ dnComponents ou = some c := by
  unfold dnIsBelow
  rw [Bool.and_eq_true, Bool.not_eq_true', dnIsAtOrWithin_iff]
  constructor
  · rintro ⟨⟨d, c, hd, hc, q, rfl⟩, hne⟩
    refine ⟨q, c, ?_, hd, hc⟩
    rintro rfl
    rw [dnEquals_iff.mpr ⟨c, hd, hc⟩] at hne
    cases hne
  · rintro ⟨q, c, hq, hd, hc⟩
    refine ⟨⟨q ++ c, c, hd, hc, List.suffix_append q c⟩, ?_⟩
    rw [Bool.eq_false_iff, ne_eq, dnEquals_iff]
    rintro ⟨c', hd', hc'⟩
    rw [hd] at hd'
    rw [hc] at hc'
    cases hc'
    exact hq (List.append_left_eq_self.mp (Option.some.inj hd'))

/-- Two units with as many components nest only as one. -/
theorem dnIsBelow_eq_false {a b : String} {x y : List String} (ha : dnComponents a = some x)
    (hb : dnComponents b = some y) (hlen : x.length = y.length) : dnIsBelow a b = false := by
  unfold dnIsBelow
  cases hw : dnIsAtOrWithin a b with
  | false => rfl
  | true =>
    obtain ⟨x', y', hx', hy', hsuffix⟩ := dnIsAtOrWithin_iff.mp hw
    rw [ha] at hx'
    rw [hb] at hy'
    cases hx'
    cases hy'
    have heq : y = x := hsuffix.eq_of_length hlen.symm
    unfold dnEquals
    rw [ha, hb, heq]
    simp

end Units

section Accepted

variable [UnicodeTables] [UppercaseTable] {Issuerd Broker Sync : Type}

omit [UppercaseTable] in
/-- The sources that are read are the listed ones, each listed once and fit to be one. -/
theorem readSources_ok {dir : String} {files : Files Issuerd Broker Sync}
    {seen names : List String} {sources : List SourceFile}
    (h : readSources dir files seen names = .ok sources) :
    sources.map SourceFile.name = names ∧ names.Nodup ∧ (∀ n ∈ names, n ∉ seen) ∧
      ∀ n ∈ names, isSourceName n = true := by
  induction names generalizing seen sources with
  | nil =>
    cases h
    simp
  | cons name rest ih =>
    rw [readSources] at h
    obtain ⟨hnew, h⟩ := refuse_ok_iff.mp h
    obtain ⟨hname, h⟩ := refuse_ok_iff.mp h
    obtain ⟨source, _, h⟩ := bind_ok_iff.mp h
    obtain ⟨heq, h⟩ := refuse_ok_iff.mp h
    obtain ⟨more, hmore, h⟩ := bind_ok_iff.mp h
    cases h
    obtain ⟨hmap, hnodup, hseen, hnames⟩ := ih hmore
    rw [ne_eq, not_not] at heq
    refine ⟨by rw [List.map_cons, heq, hmap], ?_, ?_, ?_⟩
    · refine List.nodup_cons.mpr ⟨fun hmem => ?_, hnodup⟩
      exact hseen name hmem (by simp)
    · intro n hn
      rcases List.mem_cons.mp hn with rfl | hn
      · exact hnew
      · exact fun hmem => hseen n hn (List.mem_append_left _ hmem)
    · intro n hn
      rcases List.mem_cons.mp hn with rfl | hn
      · simpa using hname
      · exact hnames n hn

/-- The check passes when no source owns the unit of one before it. -/
theorem checkOus_ok {parentOu : String} {before sources : List SourceFile}
    (h : checkOus parentOu before sources = .ok ()) :
    (∀ a ∈ before, ∀ b ∈ sources, dnEquals (a.ou parentOu) (b.ou parentOu) = false) ∧
      sources.Pairwise fun a b => dnEquals (a.ou parentOu) (b.ou parentOu) = false := by
  induction sources generalizing before with
  | nil => simp
  | cons source rest ih =>
    rw [checkOus] at h
    cases hf : before.find? fun s => dnEquals (s.ou parentOu) (source.ou parentOu) with
    | some other => simp [hf] at h
    | none =>
      rw [hf] at h
      obtain ⟨hbefore, hrest⟩ := ih h
      have hnone : ∀ a ∈ before, dnEquals (a.ou parentOu) (source.ou parentOu) = false := by
        intro a ha
        simpa using List.find?_eq_none.mp hf a ha
      refine ⟨?_, List.pairwise_cons.mpr ⟨?_, hrest⟩⟩
      · intro a ha b hb
        rcases List.mem_cons.mp hb with rfl | hb
        · exact hnone a ha
        · exact hbefore a (List.mem_append_left _ ha) b hb
      · intro b hb
        exact hbefore source (by simp) b hb

/-- The unit a source of the configuration owns. -/
def Config.ouOf (cfg : Config Issuerd Broker Sync) (s : SourceFile) : String :=
  s.ou cfg.realm.idpParentOuOf

/-- What the load has checked of the sources of a configuration. -/
structure Config.Checked (cfg : Config Issuerd Broker Sync) : Prop where
  listed : cfg.sources.map SourceFile.name = cfg.main.sources
  once : cfg.main.sources.Nodup
  named : ∀ n ∈ cfg.main.sources, isSourceName n = true
  apart : cfg.sources.Pairwise fun a b => dnEquals (cfg.ouOf a) (cfg.ouOf b) = false

/-- A configuration that is loaded has been checked. -/
theorem load_ok {dir : String} {files : Files Issuerd Broker Sync}
    {cfg : Config Issuerd Broker Sync} (h : Config.load dir files = .ok cfg) : cfg.Checked := by
  unfold Config.load at h
  obtain ⟨main, _, h⟩ := bind_ok_iff.mp h
  obtain ⟨realm, _, h⟩ := bind_ok_iff.mp h
  obtain ⟨_, _, h⟩ := bind_ok_iff.mp h
  obtain ⟨_, _, h⟩ := bind_ok_iff.mp h
  obtain ⟨issuerd, _, h⟩ := bind_ok_iff.mp h
  obtain ⟨broker, _, h⟩ := bind_ok_iff.mp h
  obtain ⟨sync, _, h⟩ := bind_ok_iff.mp h
  obtain ⟨kbmanage, _, h⟩ := bind_ok_iff.mp h
  obtain ⟨sources, hsources, h⟩ := bind_ok_iff.mp h
  obtain ⟨_, hous, h⟩ := bind_ok_iff.mp h
  obtain ⟨warnings, _, h⟩ := bind_ok_iff.mp h
  cases h
  obtain ⟨hlisted, honce, _, hnamed⟩ := readSources_ok hsources
  exact ⟨hlisted, honce, hnamed, (checkOus_ok hous).2⟩

variable {cfg : Config Issuerd Broker Sync}

/-- Two sources of one name are one source. -/
theorem Config.Checked.eq_of_name (h : cfg.Checked) {a b : SourceFile} (ha : a ∈ cfg.sources)
    (hb : b ∈ cfg.sources) (hname : a.name = b.name) : a = b := by
  have hnodup : (cfg.sources.map SourceFile.name).Nodup := by
    rw [h.listed]
    exact h.once
  exact List.inj_on_of_nodup_map hnodup ha hb hname

/-- Two sources of different names own different units. -/
theorem Config.Checked.apart_of_name (h : cfg.Checked) {a b : SourceFile} (ha : a ∈ cfg.sources)
    (hb : b ∈ cfg.sources) (hname : a.name ≠ b.name) :
    dnEquals (cfg.ouOf a) (cfg.ouOf b) = false := by
  have hsymm : Std.Symm fun a b : SourceFile => dnEquals (cfg.ouOf a) (cfg.ouOf b) = false :=
    ⟨fun x y hxy => by rw [dnEquals_comm]; exact hxy⟩
  exact h.apart.forall ha hb fun heq => hname (congrArg SourceFile.name heq)

/-- Checked sources own disjoint units exactly when no unit lies strictly beneath another. -/
theorem Config.Checked.disjoint_iff (hc : cfg.Checked) :
    (∀ a ∈ cfg.sources, ∀ b ∈ cfg.sources, a.name ≠ b.name → ∀ dn,
      ¬ (dnIsAtOrWithin dn (cfg.ouOf a) = true ∧ dnIsAtOrWithin dn (cfg.ouOf b) = true)) ↔
    ∀ a ∈ cfg.sources, ∀ b ∈ cfg.sources, dnIsBelow (cfg.ouOf a) (cfg.ouOf b) = false := by
  constructor
  · intro hdisjoint a ha b hb
    by_cases hname : a.name = b.name
    · rw [hc.eq_of_name ha hb hname]
      exact dnIsBelow_self _
    · have hnone := hdisjoint a ha b hb hname
      have hwithin : dnIsAtOrWithin (cfg.ouOf a) (cfg.ouOf b) = false := by
        rw [Bool.eq_false_iff]
        intro hw
        obtain ⟨dn, hdn⟩ := within_both_iff.mpr (Or.inl hw)
        exact hnone dn hdn
      rw [← within_iff_below (hc.apart_of_name ha hb hname)]
      exact hwithin
  · intro hbelow a ha b hb hname dn hdn
    rcases within_both_iff.mp ⟨dn, hdn⟩ with hw | hw
    · rw [within_iff_below (hc.apart_of_name ha hb hname), hbelow a ha b hb] at hw
      cases hw
    · rw [within_iff_below (hc.apart_of_name hb ha fun heq => hname heq.symm),
        hbelow b hb a ha] at hw
      cases hw

omit [UnicodeTables] [UppercaseTable] in
/-- A letter or a digit is of ASCII, and its capital neither an escape nor a comma. -/
theorem toUpper_plain {c : Char} (h : isAsciiAlphanumeric c = true) :
    c.toNat < 128 ∧ c.toUpper ≠ '\\' ∧ c.toUpper ≠ ',' := by
  have hlt : c.toNat < 128 := by
    simp only [isAsciiAlphanumeric, Bool.or_eq_true, Bool.and_eq_true, decide_eq_true_eq] at h
    omega
  have hall : ∀ n < 128, isAsciiAlphanumeric (Char.ofNat n) = true →
      (Char.ofNat n).toUpper ≠ '\\' ∧ (Char.ofNat n).toUpper ≠ ',' := by decide
  have hc := hall c.toNat hlt
  rw [Char.ofNat_toNat] at hc
  exact ⟨hlt, hc h⟩

omit [UnicodeTables] in
/-- The name of a source, title-cased, holds neither an escape nor a comma. -/
theorem titleCase_plain {name : String} (h : isSourceName name = true) :
    ∀ c ∈ (titleCase name).toList, c ≠ '\\' ∧ c ≠ ',' := by
  unfold isSourceName at h
  unfold titleCase
  cases hn : name.toList with
  | nil => simp
  | cons first rest =>
    rw [hn, Bool.and_eq_true, List.all_eq_true] at h
    obtain ⟨hfirst, hall⟩ := h
    obtain ⟨hascii, hupper⟩ := toUpper_plain hfirst
    intro c hc
    rw [String.toList_ofList, UppercaseTable.ascii first hascii, List.singleton_append] at hc
    rcases List.mem_cons.mp hc with rfl | hc
    · exact hupper
    · have hc' := hall c (List.mem_cons_of_mem _ hc)
      constructor
      · rintro rfl
        revert hc'
        decide
      · rintro rfl
        revert hc'
        decide

/-- A derived unit has one component more than the parent of all of them. -/
theorem derived_components {s : SourceFile} {parentOu : String} {x : List String}
    (hstated : s.statedOu = none) (hname : isSourceName s.name = true)
    (hx : dnComponents (s.ou parentOu) = some x) :
    ∃ ps, dnComponents parentOu = some ps ∧ x.length = ps.length + 1 := by
  have hplain : ∀ c ∈ ("OU=" ++ titleCase s.name).toList, c ≠ '\\' ∧ c ≠ ',' := by
    intro c hc
    rw [String.toList_append, List.mem_append] at hc
    rcases hc with hc | hc
    · have hhead : "OU=".toList = ['O', 'U', '='] := rfl
      rw [hhead] at hc
      simp only [List.mem_cons, List.not_mem_nil, or_false] at hc
      rcases hc with rfl | rfl | rfl
      all_goals decide
    · exact titleCase_plain hname c hc
  have hloop : componentLoop [] [] ("OU=" ++ titleCase s.name).toList =
      some [("OU=" ++ titleCase s.name).toList] := by
    have h := componentLoop_plain hplain [] [] []
    rw [List.append_nil] at h
    rw [h]
    rfl
  unfold SourceFile.ou at hx
  rw [hstated, Option.getD_none, dnComponents_append hloop] at hx
  obtain ⟨d, hd, hx⟩ := Option.bind_eq_some_iff.mp hx
  obtain ⟨ps, hps, hx⟩ := Option.map_eq_some_iff.mp hx
  obtain ⟨b, bs, _, hbs, heq⟩ := mapM_cons_eq_some.mp hd
  cases hbs
  refine ⟨ps, hps, ?_⟩
  rw [← hx, heq]
  simp

/-- The sources of an accepted configuration own disjoint units exactly when no unit
lies strictly beneath another source's. -/
theorem load_disjoint {dir : String} {files : Files Issuerd Broker Sync}
    (h : Config.load dir files = .ok cfg) :
    (∀ a ∈ cfg.sources, ∀ b ∈ cfg.sources, a.name ≠ b.name → ∀ dn,
      ¬ (dnIsAtOrWithin dn (cfg.ouOf a) = true ∧ dnIsAtOrWithin dn (cfg.ouOf b) = true)) ↔
    ∀ a ∈ cfg.sources, ∀ b ∈ cfg.sources, dnIsBelow (cfg.ouOf a) (cfg.ouOf b) = false :=
  (load_ok h).disjoint_iff

/-- Units that are derived from the names of their sources never nest. -/
theorem derived_disjoint {dir : String} {files : Files Issuerd Broker Sync}
    (h : Config.load dir files = .ok cfg) (hderived : ∀ s ∈ cfg.sources, s.statedOu = none)
    {a b : SourceFile} (ha : a ∈ cfg.sources) (hb : b ∈ cfg.sources) (hname : a.name ≠ b.name)
    (dn : String) :
    ¬ (dnIsAtOrWithin dn (cfg.ouOf a) = true ∧ dnIsAtOrWithin dn (cfg.ouOf b) = true) := by
  have hc := load_ok h
  have hnamed : ∀ s ∈ cfg.sources, isSourceName s.name = true := by
    intro s hs
    refine hc.named s.name ?_
    rw [← hc.listed]
    exact List.mem_map_of_mem hs
  refine hc.disjoint_iff.mpr ?_ a ha b hb hname dn
  intro a ha b hb
  cases hw : dnIsBelow (cfg.ouOf a) (cfg.ouOf b) with
  | false => rfl
  | true =>
    have hwithin : dnIsAtOrWithin (cfg.ouOf a) (cfg.ouOf b) = true := by
      unfold dnIsBelow at hw
      exact (Bool.and_eq_true_iff.mp hw).1
    obtain ⟨x, y, hx, hy, _⟩ := dnIsAtOrWithin_iff.mp hwithin
    obtain ⟨ps, hps, hxlen⟩ := derived_components (hderived a ha) (hnamed a ha) hx
    obtain ⟨ps', hps', hylen⟩ := derived_components (hderived b hb) (hnamed b hb) hy
    have heq : ps = ps' := Option.some.inj (hps.symm.trans hps')
    subst heq
    rw [dnIsBelow_eq_false hx hy (by omega)] at hw
    cases hw

end Accepted

/-- A set of two sources, of which the second states a unit beneath the first's. -/
def nestedFiles : Files Unit Unit Unit where
  main := .ok ⟨["entra", "lab"]⟩
  realm := .ok ⟨"X", none, none, none, none, none, "ldaps://dc.x:636"⟩
  issuerd := .ok ()
  broker := .ok ()
  sync := .ok ()
  kbmanage := none
  source file :=
    if file = "idp_entra.toml" then .ok ⟨"entra", none⟩
    else .ok ⟨"lab", some "OU=Lab,OU=Entra,OU=CloudIdP,DC=x"⟩
  listing := .ok []

/-- What the load makes of it. -/
def nestedConfig : Config Unit Unit Unit where
  main := ⟨["entra", "lab"]⟩
  realm := ⟨"X", none, none, none, none, none, "ldaps://dc.x:636"⟩
  issuerd := ()
  broker := ()
  sync := ()
  kbmanage := none
  sources := [⟨"entra", none⟩, ⟨"lab", some "OU=Lab,OU=Entra,OU=CloudIdP,DC=x"⟩]
  warnings := []

/-- The set is accepted. -/
theorem nested_loaded : @Config.load asciiTables asciiUppercase Unit Unit Unit "/c" nestedFiles =
    .ok nestedConfig := by
  decide +kernel

/-- The load accepts two sources whose units share a name. -/
theorem nested_shared :
    ¬ ∀ (dir : String) (files : Files Unit Unit Unit) (cfg : Config Unit Unit Unit),
      @Config.load asciiTables asciiUppercase _ _ _ dir files = .ok cfg →
      ∀ a ∈ cfg.sources, ∀ b ∈ cfg.sources, a.name ≠ b.name → ∀ dn,
        ¬ (@dnIsAtOrWithin asciiTables dn (@Config.ouOf asciiTables asciiUppercase _ _ _ cfg a) =
            true ∧
          @dnIsAtOrWithin asciiTables dn (@Config.ouOf asciiTables asciiUppercase _ _ _ cfg b) =
            true) := by
  intro h
  refine h "/c" nestedFiles nestedConfig nested_loaded ⟨"entra", none⟩ (by decide)
    ⟨"lab", some "OU=Lab,OU=Entra,OU=CloudIdP,DC=x"⟩ (by decide) (by decide)
    "CN=kb-role,OU=Lab,OU=Entra,OU=CloudIdP,DC=x" ?_
  decide +kernel

/-- The rule at that set. -/
theorem load_disjoint_nested :
    ¬ ∀ a ∈ nestedConfig.sources, ∀ b ∈ nestedConfig.sources,
      @dnIsBelow asciiTables (@Config.ouOf asciiTables asciiUppercase _ _ _ nestedConfig a)
        (@Config.ouOf asciiTables asciiUppercase _ _ _ nestedConfig b) = false := by
  intro h
  have hdisjoint := (@load_disjoint asciiTables asciiUppercase Unit Unit Unit nestedConfig "/c"
    nestedFiles nested_loaded).mpr h
  refine hdisjoint ⟨"entra", none⟩ (by decide)
    ⟨"lab", some "OU=Lab,OU=Entra,OU=CloudIdP,DC=x"⟩ (by decide) (by decide)
    "CN=kb-role,OU=Lab,OU=Entra,OU=CloudIdP,DC=x" ?_
  decide +kernel

/-- The same set where the second source states no unit either. -/
def apartFiles : Files Unit Unit Unit :=
  { nestedFiles with
    source := fun file =>
      if file = "idp_entra.toml" then .ok ⟨"entra", none⟩ else .ok ⟨"lab", none⟩ }

/-- What the load makes of it. -/
def apartConfig : Config Unit Unit Unit :=
  { nestedConfig with sources := [⟨"entra", none⟩, ⟨"lab", none⟩] }

/-- The set is accepted as well. -/
theorem apart_loaded : @Config.load asciiTables asciiUppercase Unit Unit Unit "/c" apartFiles =
    .ok apartConfig := by
  decide +kernel

/-- No name lies within both of its units. -/
theorem derived_disjoint_apart :
    ¬ ∃ dn, (@dnIsAtOrWithin asciiTables dn
        (@Config.ouOf asciiTables asciiUppercase _ _ _ apartConfig ⟨"entra", none⟩) = true ∧
      @dnIsAtOrWithin asciiTables dn
        (@Config.ouOf asciiTables asciiUppercase _ _ _ apartConfig ⟨"lab", none⟩) = true) :=
  fun ⟨dn, h⟩ => @derived_disjoint asciiTables asciiUppercase Unit Unit Unit apartConfig "/c" apartFiles
    apart_loaded (by decide) ⟨"entra", none⟩ ⟨"lab", none⟩ (by decide) (by decide) (by decide) dn h

end Kerbridge.ConfigSet

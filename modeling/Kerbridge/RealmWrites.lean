import Mathlib.Logic.Function.Basic
import Kerbridge.RealmDirectory

/-!
# Changes to directory objects

A modify is a list of changes to the values of one object, made whole or not at
all. A command makes its modifies in order and stops at the first that fails, so
what it leaves behind at any moment is what some of its first modifies make.
-/

namespace Kerbridge.RealmWrites

open LdapFilter RealmDirectory

/-- One change to the values of an attribute. -/
inductive Mod where
  /-- One value more, refused where the value is there. -/
  | add (attr value : String)
  /-- One value in place of all. -/
  | replace (attr value : String)
  /-- No value at all, refused where there is none. -/
  | clear (attr : String)
  /-- One value less, refused where the value is not there. -/
  | delete (attr value : String)

/-- The attribute of a change. -/
def Mod.attr : Mod → String
  | .add attr _ => attr
  | .replace attr _ => attr
  | .clear attr => attr
  | .delete attr _ => attr

/-- The values after a change, by the server's own comparison. -/
def Mod.values (server : Server) (values : List String) : Mod → Option (List String)
  | .add attr value =>
    if values.any (server.equal attr (utf8 value.toList)) then none else some (values ++ [value])
  | .replace _ value => some [value]
  | .clear _ => if values.isEmpty then none else some []
  | .delete attr value =>
    if values.any (server.equal attr (utf8 value.toList)) then
      some (values.filter fun v => !server.equal attr (utf8 value.toList) v)
    else none

/-- One change to an object's attributes. A back-link is the server's to write. -/
def Mod.apply (server : Server) (attrs : String → List String) (m : Mod) :
    Option (String → List String) :=
  if m.attr = "managedObjects" then none
  else (m.values server (attrs m.attr)).map (Function.update attrs m.attr)

/-- The changes of one modify, one after another. -/
def modified (server : Server) (mods : List Mod) (attrs : String → List String) :
    Option (String → List String) :=
  mods.foldlM (Mod.apply server) attrs

section Attributes

variable {server : Server}

/-- A change writes the values of its own attribute, which is no back-link. -/
theorem apply_ok {attrs attrs' : String → List String} {m : Mod}
    (h : m.apply server attrs = some attrs') : m.attr ≠ "managedObjects" ∧
      ∃ vs, m.values server (attrs m.attr) = some vs ∧ attrs' = Function.update attrs m.attr vs := by
  unfold Mod.apply at h
  split at h
  · cases h
  · rename_i hattr
    obtain ⟨vs, hvs, rfl⟩ := Option.map_eq_some_iff.mp h
    exact ⟨hattr, vs, hvs, rfl⟩

/-- A modify makes its first change, and then the others. -/
theorem modified_cons {attrs attrs' : String → List String} {m : Mod} {mods : List Mod}
    (h : modified server (m :: mods) attrs = some attrs') :
    ∃ next, m.apply server attrs = some next ∧ modified server mods next = some attrs' :=
  Option.bind_eq_some_iff.mp h

/-- A change leaves the other attributes alone. -/
theorem apply_other {attrs attrs' : String → List String} {m : Mod}
    (h : m.apply server attrs = some attrs') {name : String} (hname : name ≠ m.attr) :
    attrs' name = attrs name := by
  obtain ⟨_, vs, _, rfl⟩ := apply_ok h
  exact Function.update_of_ne hname vs attrs

/-- A modify leaves alone what none of its changes is about. -/
theorem modified_other {mods : List Mod} {attrs attrs' : String → List String}
    (h : modified server mods attrs = some attrs') {name : String}
    (hname : ∀ m ∈ mods, name ≠ m.attr) : attrs' name = attrs name := by
  induction mods generalizing attrs with
  | nil =>
    cases h
    rfl
  | cons m mods ih =>
    obtain ⟨hm, hmods⟩ := List.forall_mem_cons.mp hname
    obtain ⟨next, hnext, hrest⟩ := modified_cons h
    rw [ih hrest hmods, apply_other hnext hm]

/-- No modify writes a back-link. -/
theorem modified_backlinks {mods : List Mod} {attrs attrs' : String → List String}
    (h : modified server mods attrs = some attrs') :
    attrs' "managedObjects" = attrs "managedObjects" := by
  induction mods generalizing attrs with
  | nil =>
    cases h
    rfl
  | cons m mods ih =>
    obtain ⟨next, hnext, hrest⟩ := modified_cons h
    rw [ih hrest, apply_other hnext (apply_ok hnext).1.symm]

end Attributes

variable {server : Server}

/-- One modify of the object of a name, as the directory makes it or refuses it. -/
def write (r : Realm server) (dn : String) (mods : List Mod) : Option (Realm server) :=
  match he : r.entries.find? fun e => server.sameDn e.dn dn with
  | none => none
  | some e =>
    match hattrs : modified server mods e.attrs with
    | none => none
    | some attrs => some {
        entries := r.entries.map fun o =>
          if server.sameDn o.dn dn then { o with attrs := attrs } else o
        distinct := by
          rw [List.pairwise_map]
          apply r.distinct.imp
          intro a b hab
          have hdn : ∀ o : Entry, (if server.sameDn o.dn dn = true then
              { o with attrs := attrs } else o).dn = o.dn := by
            intro o
            split
            · rfl
            · rfl
          rw [hdn a, hdn b]
          exact hab
        backlinks := by
          intro o' ho' g hg
          obtain ⟨o, ho, rfl⟩ := List.mem_map.mp ho'
          have hlinks : g ∈ o.attrs "managedObjects" := by
            split at hg
            · rename_i hsame
              have hfound := List.find?_some he
              obtain rfl := r.eq_of_sameDn (List.mem_of_find?_eq_some he) ho
                (server.sameDn_of_common _ _ _ hfound hsame)
              exact modified_backlinks hattrs ▸ hg
            · exact hg
          obtain ⟨t, ht, hsame⟩ := r.backlinks o ho g hlinks
          refine ⟨_, List.mem_map.mpr ⟨t, ht, rfl⟩, ?_⟩
          split
          · exact hsame
          · exact hsame }

/-- A modify that is made changes the attributes of one object, and nothing else. -/
theorem write_ok {r r' : Realm server} {dn : String} {mods : List Mod}
    (h : write r dn mods = some r') :
    ∃ e ∈ r.entries, server.sameDn e.dn dn = true ∧ ∃ attrs f,
      modified server mods e.attrs = some attrs ∧ r'.entries = r.entries.map f ∧
      f e = { e with attrs := attrs } ∧ ∀ o ∈ r.entries, o ≠ e → f o = o := by
  unfold write at h
  split at h
  · cases h
  · rename_i e hfind
    split at h
    · cases h
    · rename_i attrs hattrs
      cases h
      have he := List.mem_of_find?_eq_some hfind
      have hsame : server.sameDn e.dn dn = true := by
        have hfound := List.find?_some hfind
        exact hfound
      refine ⟨e, he, hsame, attrs, _, hattrs, rfl, if_pos hsame, ?_⟩
      intro o ho hne
      apply if_neg
      intro hdn
      exact hne (r.eq_of_sameDn ho he (server.sameDn_of_common _ _ _ hdn hsame))

/-- A modify made after others, which kept every name, changes one more object. -/
theorem write_map {r m m' : Realm server} {f : Entry → Entry} (hf : m.entries = r.entries.map f)
    (hdn : ∀ e ∈ r.entries, (f e).dn = e.dn) {a : Entry} (ha : a ∈ r.entries) {mods : List Mod}
    (h : write m a.dn mods = some m') :
    ∃ attrs f', modified server mods (f a).attrs = some attrs ∧ m'.entries = r.entries.map f' ∧
      f' a = { f a with attrs := attrs } ∧ ∀ e ∈ r.entries, e ≠ a → f' e = f e := by
  obtain ⟨e₀, he₀, hsame, attrs, g, hattrs, hg, hchanged, hkept⟩ := write_ok h
  rw [hf] at he₀ hg
  obtain ⟨b, hb, rfl⟩ := List.mem_map.mp he₀
  rw [hdn b hb] at hsame
  obtain rfl := r.eq_of_sameDn hb ha hsame
  refine ⟨attrs, g ∘ f, hattrs, by rw [hg, List.map_map], hchanged, ?_⟩
  intro e he hne
  apply hkept
  · rw [hf]
    exact List.mem_map.mpr ⟨e, he, rfl⟩
  · intro heq
    apply hne
    apply r.eq_of_sameDn he hb
    rw [← hdn e he, heq, hdn b hb]
    exact server.sameDn_self b.dn

/-- One modify of a command. -/
structure Write where
  dn : String
  mods : List Mod

/-- What becomes of a modify that is sent. -/
inductive Fate where
  /-- The server makes it or refuses it, and says so. -/
  | answered
  /-- It fails and changes nothing. -/
  | failed
  /-- The server makes it or refuses it, and the answer is lost. -/
  | unanswered
  deriving DecidableEq

/-- The directory one modify leaves behind, and whether it ends well. -/
def Write.make (w : Write) (r : Realm server) : Fate → Realm server × Bool
  | .answered =>
    match write r w.dn w.mods with
    | some r' => (r', true)
    | none => (r, false)
  | .failed => (r, false)
  | .unanswered => ((write r w.dn w.mods).getD r, false)

/-- Modifies made in order up to the first that fails: the directory each leaves
behind, and the first that failed. -/
def perform (fates : ℕ → Fate) (r : Realm server) : List Write → List (Realm server) × Option Write
  | [] => ([], none)
  | w :: ws =>
    match w.make r (fates 0) with
    | (r', true) =>
      let rest := perform (fun n => fates (n + 1)) r' ws
      (r' :: rest.1, rest.2)
    | (r', false) => ([r'], some w)

/-- The directory a list of modifies leaves behind when all of them are made. -/
def performed (ws : List Write) (r : Realm server) : Option (Realm server) :=
  ws.foldlM (fun r w => write r w.dn w.mods) r

/-- A modify leaves the directory alone or makes its changes; it ends well only when
it makes them. -/
theorem make_cases (w : Write) (r : Realm server) (fate : Fate) :
    write r w.dn w.mods = some (w.make r fate).1 ∨
      ((w.make r fate).1 = r ∧ (w.make r fate).2 = false) := by
  cases fate with
  | answered =>
    unfold Write.make
    cases hw : write r w.dn w.mods with
    | none => exact Or.inr ⟨rfl, rfl⟩
    | some r' => exact Or.inl rfl
  | failed => exact Or.inr ⟨rfl, rfl⟩
  | unanswered =>
    unfold Write.make
    cases hw : write r w.dn w.mods with
    | none => exact Or.inr ⟨rfl, rfl⟩
    | some r' => exact Or.inl rfl

/-- A modify that ends well is made, and those after it are performed. -/
theorem perform_cons {fates : ℕ → Fate} {r : Realm server} {w : Write} (ws : List Write) :
    (∃ r', write r w.dn w.mods = some r' ∧ perform fates r (w :: ws) =
      (r' :: (perform (fun n => fates (n + 1)) r' ws).1,
        (perform (fun n => fates (n + 1)) r' ws).2)) ∨
    perform fates r (w :: ws) = ([(w.make r (fates 0)).1], some w) := by
  have hcases := make_cases w r (fates 0)
  rw [perform]
  rcases hmake : w.make r (fates 0) with ⟨r', ok⟩
  rw [hmake] at hcases
  cases ok with
  | false => exact Or.inr rfl
  | true =>
    rcases hcases with hmade | ⟨_, hfalse⟩
    · exact Or.inl ⟨r', hmade, rfl⟩
    · cases hfalse

/-- Whatever fails, the directory at every moment is what some of the first modifies
make of it. -/
theorem moment_performed {fates : ℕ → Fate} {r m : Realm server} {ws : List Write}
    (h : m ∈ r :: (perform fates r ws).1) : ∃ k, performed (ws.take k) r = some m := by
  induction ws generalizing fates r with
  | nil =>
    rw [List.mem_singleton.mp h]
    exact ⟨0, rfl⟩
  | cons w ws ih =>
    rcases List.mem_cons.mp h with rfl | hm
    · exact ⟨0, rfl⟩
    · rcases @perform_cons _ fates r w ws with ⟨r', hwrite, heq⟩ | heq
      · rw [heq] at hm
        obtain ⟨k, hk⟩ := ih hm
        refine ⟨k + 1, ?_⟩
        rw [List.take_succ_cons, performed, List.foldlM_cons, hwrite]
        exact hk
      · rw [heq, List.mem_singleton] at hm
        rcases make_cases w r (fates 0) with hmade | ⟨hsame, _⟩
        · refine ⟨1, ?_⟩
          simp [performed, hmade, hm]
        · rw [hm, hsame]
          exact ⟨0, rfl⟩

/-- A command that ends well has made all its modifies. -/
theorem performed_of_none {fates : ℕ → Fate} {r : Realm server} {ws : List Write}
    (h : (perform fates r ws).2 = none) :
    performed ws r = some ((r :: (perform fates r ws).1).getLast (by simp)) := by
  induction ws generalizing fates r with
  | nil => rfl
  | cons w ws ih =>
    rcases @perform_cons _ fates r w ws with ⟨r', hwrite, heq⟩ | heq
    · rw [heq] at h
      rw [performed, List.foldlM_cons, hwrite]
      simp only [heq]
      rw [List.getLast_cons (by simp)]
      exact ih h
    · rw [heq] at h
      cases h

end Kerbridge.RealmWrites

import Kerbridge.UnicodeText

/-!
# Paths of files

A path is a text. What it names last is found from its end, where separators and
single dots do not count.
-/

namespace Kerbridge.UnixPath

open UnicodeText

/-- A path without the separators and the dots at its end, both from the end. -/
def trimmed : List Char → List Char
  | '/' :: rest => trimmed rest
  | '.' :: '/' :: rest => trimmed rest
  | path => path

/-- The name of a file and what is before it, both from the end. A path that ends in a
root or in dots names no file. -/
def fileName (path : String) : Option (List Char × List Char) :=
  let path := trimmed path.toList.reverse
  let name := path.takeWhile (· != '/')
  if name = [] ∨ name = ['.'] ∨ name = ['.', '.'] then none
  else some (name, path.dropWhile (· != '/'))

/-- A name without its extension, both from the end. A dot in front starts none. -/
def fileStem (name : List Char) : List Char :=
  match name.dropWhile (· != '.') with
  | _ :: c :: before => c :: before
  | _ => name

/-- The path with another extension. -/
def withExtension (path extension : String) : String :=
  match fileName path with
  | none => path
  | some (name, before) =>
    String.ofList (before.reverse ++ (fileStem name).reverse ++ '.' :: extension.toList)

/-- The directory of a path. A root has none. -/
def parent (path : String) : Option String :=
  match trimmed path.toList.reverse with
  | [] => none
  | c :: before =>
    let rest := trimmed ((c :: before).dropWhile (· != '/'))
    some (if rest.isEmpty && startsWith path "/" then "/" else String.ofList rest.reverse)

/-- A path under a directory. -/
def join (dir name : String) : String :=
  if dir = "" ∨ dir.toList.getLast? = some '/' then dir ++ name else dir ++ "/" ++ name

/-- A path that ends in a name, from its end, names a file of that name. -/
theorem fileName_of_reverse {path : String} {name before : List Char}
    (h : path.toList.reverse = name ++ before) (hslash : '/' ∉ name)
    (hfirst : ∃ c rest, name = c :: rest ∧ c ≠ '.')
    (hbefore : before = [] ∨ ∃ rest, before = '/' :: rest) :
    fileName path = some (name, before) := by
  obtain ⟨c, rest, hname, hdot⟩ := hfirst
  have hsep : c ≠ '/' := by
    rintro rfl
    exact hslash (hname ▸ List.mem_cons_self)
  have htrimmed : trimmed (name ++ before) = name ++ before := by
    rw [hname, List.cons_append]
    unfold trimmed
    split
    · rename_i heq
      exact absurd (List.cons_eq_cons.mp heq).1 hsep
    · rename_i heq
      exact absurd (List.cons_eq_cons.mp heq).1 hdot
    · rfl
  have hplain : ∀ d ∈ name, (d != '/') = true := by
    intro d hd
    rw [bne_iff_ne]
    rintro rfl
    exact hslash hd
  have htake : (name ++ before).takeWhile (· != '/') = name := by
    rw [List.takeWhile_append_of_pos hplain]
    rcases hbefore with rfl | ⟨rest, rfl⟩
    · simp
    · simp
  have hdrop : (name ++ before).dropWhile (· != '/') = before := by
    rw [List.dropWhile_append_of_pos hplain]
    rcases hbefore with rfl | ⟨rest, rfl⟩
    · rfl
    · simp
  unfold fileName
  rw [h, htrimmed]
  dsimp only
  rw [htake, hdrop, if_neg]
  rw [hname]
  simp [hdot]

/-- A file's name holds no separator. -/
theorem fileName_plain {path : String} {name before : List Char}
    (h : fileName path = some (name, before)) : '/' ∉ name := by
  unfold fileName at h
  dsimp only at h
  split at h
  · cases h
  · cases h
    intro hmem
    have hplain := List.mem_takeWhile_imp hmem
    simp at hplain

/-- The name of a file under a directory is the one it was given. -/
theorem fileName_join (dir : String) {name : List Char} (hslash : '/' ∉ name)
    (hfirst : ∃ c rest, name = c :: rest ∧ c ≠ '.') :
    ∃ before, fileName (join dir (String.ofList name.reverse)) = some (name, before) := by
  unfold join
  split
  · rename_i hdir
    refine ⟨dir.toList.reverse, fileName_of_reverse (by simp) hslash hfirst ?_⟩
    rcases hdir with rfl | hlast
    · exact Or.inl rfl
    · obtain ⟨front, hfront⟩ := List.getLast?_eq_some_iff.mp hlast
      exact Or.inr ⟨front.reverse, by simp [hfront]⟩
  · exact ⟨'/' :: dir.toList.reverse, fileName_of_reverse (by simp) hslash hfirst
      (Or.inr ⟨dir.toList.reverse, rfl⟩)⟩

end Kerbridge.UnixPath

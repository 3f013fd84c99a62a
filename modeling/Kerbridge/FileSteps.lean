import Mathlib.Logic.Function.Basic
import Mathlib.Data.List.Basic

/-!
# Files, and steps on them that may fail

A store holds what each path names. Any step on it may fail, and a write that fails
may leave a part of what it was given. A file is replaced through a temporary one:
the content is written beside it, and is then renamed over it.
-/

namespace Kerbridge.FileSteps

/-- What each path holds. -/
abbrev Files (Path Byte : Type) := Path → Option (List Byte)

/-- How the steps of a replacement go. -/
structure Steps where
  /-- An old temporary file is removed, where there is one. -/
  removesOld : Bool
  /-- A temporary file is made, where there is none. -/
  creates : Bool
  /-- How much of the content is written when not all of it is. -/
  stops : Option ℕ
  /-- What was written reaches the disk. -/
  flushes : Bool
  /-- The temporary file is renamed. -/
  renames : Bool
  /-- The temporary file is removed after a failure. -/
  cleans : Bool
  deriving DecidableEq

/-- The step a replacement failed in. -/
inductive Stage where
  | create
  | write
  | flush
  | replace
  deriving DecidableEq

variable {Path Byte : Type} [DecidableEq Path]

/-- Removes a file, unless the step fails or there is none. -/
def removed (works : Bool) (path : Path) (files : Files Path Byte) : Files Path Byte :=
  if works then Function.update files path none else files

/-- Makes an empty file, unless the step fails or there is one. -/
def created (works : Bool) (path : Path) (files : Files Path Byte) : Option (Files Path Byte) :=
  if works && (files path).isNone then some (Function.update files path (some [])) else none

/-- Moves a file over another, unless the step fails. -/
def renamed (works : Bool) (source target : Path) (files : Files Path Byte) :
    Option (Files Path Byte) :=
  if works then some (Function.update (Function.update files source none) target (files source))
  else none

/-- Writes the content to a new temporary file. -/
def written (s : Steps) (temp : Path) (content : List Byte) (files : Files Path Byte) :
    Files Path Byte × Except Stage Unit :=
  let files := removed s.removesOld temp files
  match created s.creates temp files with
  | none => (files, .error .create)
  | some files =>
    match s.stops with
    | some n => (Function.update files temp (some (content.take n)), .error .write)
    | none =>
      let files := Function.update files temp (some content)
      if s.flushes then (files, .ok ()) else (files, .error .flush)

/-- Replaces a file through a temporary one, which is removed after a failure. -/
def replaced (s : Steps) (temp path : Path) (content : List Byte) (files : Files Path Byte) :
    Files Path Byte × Except Stage Unit :=
  match written s temp content files with
  | (files, .error stage) => (removed s.cleans temp files, .error stage)
  | (files, .ok ()) =>
    match renamed s.renames temp path files with
    | none => (removed s.cleans temp files, .error .replace)
    | some files => (files, .ok ())

/-- Nothing is in the way of the temporary file, given what its path holds. -/
def Steps.frees (s : Steps) (old : Option (List Byte)) : Bool := s.removesOld || old.isNone

/-- The content reaches its place, given what the path of the temporary file holds. -/
def Steps.lands (s : Steps) (old : Option (List Byte)) : Bool :=
  s.frees old && s.creates && s.stops.isNone && s.flushes && s.renames

/-- What a replacement that fails leaves at the path of its temporary file. -/
def Steps.leaves (s : Steps) (content : List Byte) (old : Option (List Byte)) :
    Option (List Byte) :=
  if s.cleans then none
  else if !s.frees old then old
  else if !s.creates then none
  else some (match s.stops with
    | some n => content.take n
    | none => content)

/-- What is at the path of the temporary file before it is made. -/
theorem removed_frees (s : Steps) (temp : Path) (files : Files Path Byte) :
    removed s.removesOld temp files =
      Function.update files temp (if s.frees (files temp) then none else files temp) := by
  unfold removed Steps.frees
  cases hremoves : s.removesOld with
  | true => simp
  | false =>
    cases hold : files temp with
    | none => simp [← hold]
    | some old => simp [← hold]

/-- A removal after a failure. -/
theorem removed_update (works : Bool) (path : Path) (files : Files Path Byte)
    (held : Option (List Byte)) :
    removed works path (Function.update files path held) =
      Function.update files path (if works then none else held) := by
  cases works with
  | true => simp [removed]
  | false => simp [removed]

/-- The content is written to the temporary file, or the path holds what is left of an
attempt at it. -/
theorem written_spec (s : Steps) (temp : Path) (content : List Byte) (files : Files Path Byte) :
    (s.frees (files temp) = true ∧ s.creates = true ∧ s.stops = none ∧ s.flushes = true ∧
      written s temp content files = (Function.update files temp (some content), .ok ())) ∨
    ((s.frees (files temp) && s.creates && s.stops.isNone && s.flushes) = false ∧
      ∃ stage held, written s temp content files =
        (Function.update files temp held, .error stage) ∧
        (if s.cleans then none else held) = s.leaves content (files temp)) := by
  unfold written Steps.leaves
  rw [removed_frees]
  cases hfrees : s.frees (files temp) with
  | false =>
    have hthere : (files temp).isNone = false := (Bool.or_eq_false_iff.mp hfrees).2
    refine Or.inr ⟨rfl, .create, files temp, ?_, rfl⟩
    simp [created, hthere]
  | true =>
    cases hcreates : s.creates with
    | false =>
      refine Or.inr ⟨rfl, .create, none, ?_, rfl⟩
      simp [created]
    | true =>
      cases hstops : s.stops with
      | some n =>
        refine Or.inr ⟨rfl, .write, some (content.take n), ?_, rfl⟩
        simp [created]
      | none =>
        cases hflushes : s.flushes with
        | false =>
          refine Or.inr ⟨rfl, .flush, some content, ?_, rfl⟩
          simp [created]
        | true =>
          refine Or.inl ⟨rfl, rfl, rfl, rfl, ?_⟩
          simp [created]

/-- **A replacement** either puts the content in its place, or changes nothing but what
the path of its temporary file holds. -/
theorem replaced_spec (s : Steps) (temp path : Path) (content : List Byte)
    (files : Files Path Byte) :
    (s.lands (files temp) = true ∧ replaced s temp path content files =
      (Function.update (Function.update files temp none) path (some content), .ok ())) ∨
    (s.lands (files temp) = false ∧ ∃ stage, replaced s temp path content files =
      (Function.update files temp (s.leaves content (files temp)), .error stage)) := by
  unfold replaced
  rcases written_spec s temp content files with
    ⟨hfrees, hcreates, hstops, hflushes, hwritten⟩ | ⟨hnot, stage, held, hwritten, hleft⟩
  · rw [hwritten]
    cases hrenames : s.renames with
    | true =>
      refine Or.inl ⟨by simp [Steps.lands, hfrees, hcreates, hstops, hflushes, hrenames], ?_⟩
      simp [renamed]
    | false =>
      refine Or.inr ⟨by simp [Steps.lands, hrenames], .replace, ?_⟩
      simp [renamed, removed_update, Steps.leaves, hfrees, hcreates, hstops]
  · rw [hwritten]
    refine Or.inr ⟨by simp [Steps.lands, hnot], stage, ?_⟩
    dsimp only
    rw [removed_update, hleft]

end Kerbridge.FileSteps

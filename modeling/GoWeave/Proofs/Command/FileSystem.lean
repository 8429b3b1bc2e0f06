import GoWeave.Command.FileTree
import GoWeave.Proofs.Command.Runs

/-!
# File systems

A path leads to a place, and at a place is a file, a directory or nothing. How a path leads there,
by which links and from which directory on, is left open. Of a file system little is assumed:
reading changes nothing, writing changes at most what is at the place it names, and directories that
are made are no files. So a later disk differs from an earlier one only in the files that were
written in between.

In a steady file system nothing comes in between: what has succeeded once succeeds again, a file
just written reads back, and directories that have been made are there.
-/
namespace GoWeave.Command

/-- The text of a file. -/
def FileEntry.text? : FileEntry → Option String
  | file text => some text
  | dir => none

/-- A view of a disk: where paths lead, and what is there. -/
class FileView (σ : Type) (π : outParam Type) where
  /-- The place that a path leads to. There need not be anything. -/
  locate : σ → String → Option π
  look : σ → π → Option FileEntry

namespace FileView

variable {σ π : Type} [FileView σ π] {disk disk' disk'' : σ} {paths paths' : List String}
  {p q : String}

/-- The text of the file at a place, if there is one. -/
def text? (disk : σ) (place : π) : Option String :=
  (look disk place).bind FileEntry.text?

theorem text?_eq_some_iff {place : π} {text : String} :
    text? disk place = some text ↔ look disk place = some (.file text) := by
  unfold text?
  rcases look disk place with _ | ⟨_ | _⟩ <;> simp [FileEntry.text?]

/-- Two paths that do not lead to one place. -/
def Apart (disk : σ) (p q : String) : Prop :=
  ∀ place, locate disk p = some place → locate disk q ≠ some place

instance [DecidableEq π] (disk : σ) (p q : String) : Decidable (Apart disk p q) :=
  decidable_of_iff (∀ place ∈ (locate disk p).toList, locate disk q ≠ some place)
    (by simp [Apart])

theorem Apart.symm (h : Apart disk p q) : Apart disk q p :=
  fun place hq hp => h place hp hq

/-- No file is created or changed but those that some paths lead to. -/
def ChangesOnly (paths : List String) (disk disk' : σ) : Prop :=
  ∀ place, text? disk' place = text? disk place ∨ ∃ p ∈ paths, locate disk' p = some place

theorem ChangesOnly.text?_eq {place : π} (h : ChangesOnly paths disk disk')
    (hapart : ∀ p ∈ paths, Apart disk' p q) (hplace : locate disk' q = some place) :
    text? disk' place = text? disk place := by
  rcases h place with hkept | ⟨p, hp, hlocate⟩
  · exact hkept
  · exact absurd hplace (hapart p hp place hlocate)

/-- Paths lead where they led, and what is there is the same but where some paths lead. -/
structure Keeps (paths : List String) (disk disk' : σ) : Prop where
  locate_eq (p : String) : locate disk' p = locate disk p
  look_eq (place : π) : look disk' place = look disk place ∨ ∃ p ∈ paths, locate disk p = some place

namespace Keeps

theorem refl (paths : List String) (disk : σ) : Keeps paths disk disk :=
  ⟨fun _ => rfl, fun _ => .inl rfl⟩

theorem mono (h : Keeps paths disk disk') (hsub : paths ⊆ paths') : Keeps paths' disk disk' := by
  refine ⟨h.locate_eq, fun place => (h.look_eq place).imp_right ?_⟩
  rintro ⟨p, hp, hlocate⟩
  exact ⟨p, hsub hp, hlocate⟩

theorem trans (h : Keeps paths disk disk') (h' : Keeps paths disk' disk'') :
    Keeps paths disk disk'' := by
  refine ⟨fun p => (h'.locate_eq p).trans (h.locate_eq p), fun place => ?_⟩
  rcases h'.look_eq place with hlook | ⟨p, hp, hlocate⟩
  · rw [hlook]
    exact h.look_eq place
  · exact .inr ⟨p, hp, h.locate_eq p ▸ hlocate⟩

theorem apart (h : Keeps paths disk disk') (hapart : Apart disk p q) : Apart disk' p q := by
  intro place hp hq
  rw [h.locate_eq] at hp hq
  exact hapart place hp hq

theorem changesOnly (h : Keeps paths disk disk') : ChangesOnly paths disk disk' := by
  intro place
  rcases h.look_eq place with hlook | ⟨p, hp, hlocate⟩
  · exact .inl (congrArg (·.bind FileEntry.text?) hlook)
  · exact .inr ⟨p, hp, (h.locate_eq p).trans hlocate⟩

end Keeps

end FileView

open FileView (locate look text? Apart ChangesOnly Keeps)

/-- A file system and the operations on it. -/
class FileSystem (σ : Type) (π : outParam Type) [Workspace (StateM σ)] extends FileView σ π where
  keeps_read (path : String) (disk : σ) : Keeps [] disk (perform (Workspace.read path) disk).2
  keeps_write (path text : String) (disk : σ) :
    Keeps [path] disk (perform (Workspace.write path text) disk).2
  /-- A write that fails changes nothing. -/
  keeps_write_error {path text : String} {disk : σ} {e : SystemError}
    (h : (perform (Workspace.write path text) disk).1 = .error e) :
    Keeps [] disk (perform (Workspace.write path text) disk).2
  keeps_append (path text : String) (disk : σ) :
    Keeps [path] disk (perform (Workspace.append path text) disk).2
  locate_createDirs (path : String) {disk : σ} {p : String} {place : π}
    (h : locate disk p = some place) :
    locate (perform (Workspace.createDirs path) disk).2 p = some place
  /-- Directories are no files, whether all of them could be made or not. -/
  text?_createDirs (path : String) (disk : σ) (place : π) :
    text? (perform (Workspace.createDirs path) disk).2 place = text? disk place

/-- A file system that nothing else changes. -/
class SteadyFileSystem (σ : Type) (π : outParam Type) [Workspace (StateM σ)] extends
    FileSystem σ π where
  look_of_read {path text : String} {disk : σ}
    (h : (perform (Workspace.read path) disk).1 = .ok text) :
    ∃ place, locate disk path = some place ∧ look disk place = some (.file text)
  /-- A file that could be read can be read later, with the text that it has then. -/
  read_again {path text text' : String} {paths : List String} {disk disk' : σ} {place : π}
    (h : (perform (Workspace.read path) disk).1 = .ok text) (hgrows : Grows paths disk disk')
    (hlocate : locate disk' path = some place) (hlook : look disk' place = some (.file text')) :
    (perform (Workspace.read path) disk').1 = .ok text'
  /-- A file just written reads back as written. -/
  read_written {path text : String} {disk : σ}
    (h : (perform (Workspace.write path text) disk).1 = .ok ()) :
    (perform (Workspace.read path) (perform (Workspace.write path text) disk).2).1 = .ok text
  write_again {path text : String} {paths : List String} {disk disk' : σ}
    (h : (perform (Workspace.write path text) disk).1 = .ok ())
    (hgrows : Grows paths (perform (Workspace.write path text) disk).2 disk') :
    (perform (Workspace.write path text) disk').1 = .ok ()
  append_again {path text : String} {paths : List String} {disk disk' : σ}
    (h : (perform (Workspace.append path text) disk).1 = .ok ())
    (hgrows : Grows paths (perform (Workspace.append path text) disk).2 disk') :
    (perform (Workspace.append path text) disk').1 = .ok ()
  /-- Where directories have been made, there is nothing left to make. -/
  createDirs_again {path : String} {paths : List String} {disk disk' : σ}
    (h : (perform (Workspace.createDirs path) disk).1 = .ok ())
    (hgrows : Grows paths (perform (Workspace.createDirs path) disk).2 disk') :
    (perform (Workspace.createDirs path) disk').1 = .ok () ∧
      Keeps [] disk' (perform (Workspace.createDirs path) disk').2

variable {σ π : Type} {disk disk' : σ} {paths : List String} {path text : String} {place : π}
  [Workspace (StateM σ)]

/-! ## Later disks -/

section

variable [FileSystem σ π]

/-- A path that leads somewhere leads there on every later disk. -/
theorem Grows.locate (h : Grows paths disk disk') (hlocate : locate disk path = some place) :
    FileView.locate disk' path = some place := by
  induction h with
  | refl => exact hlocate
  | read _ p ih => exact ((FileSystem.keeps_read p _).locate_eq path).trans ih
  | write _ _ text ih => exact ((FileSystem.keeps_write _ text _).locate_eq path).trans ih
  | writeFailed _ hfail ih => exact ((FileSystem.keeps_write_error hfail).locate_eq path).trans ih
  | append _ _ text ih => exact ((FileSystem.keeps_append _ text _).locate_eq path).trans ih
  | createDirs _ p ih => exact FileSystem.locate_createDirs p ih

/-- On a later disk only files that were written are others. -/
theorem Grows.changesOnly (h : Grows paths disk disk') : ChangesOnly paths disk disk' := by
  -- One more operation that changes the files of some of the paths only.
  have hstep : ∀ {mid last : σ} {written : List String}, ChangesOnly paths disk mid →
      Keeps written mid last → written ⊆ paths → ChangesOnly paths disk last := by
    intro mid last written ih hkeeps hsub place
    rcases hkeeps.changesOnly place with htext | ⟨p, hp, hlocate⟩
    · rw [htext]
      refine (ih place).imp_right ?_
      rintro ⟨p, hp, hlocate⟩
      exact ⟨p, hp, (hkeeps.locate_eq p).trans hlocate⟩
    · exact .inr ⟨p, hsub hp, hlocate⟩
  induction h with
  | refl => exact fun _ => .inl rfl
  | read _ p ih => exact hstep ih (FileSystem.keeps_read p _) (List.nil_subset _)
  | write _ hpath text ih =>
    exact hstep ih (FileSystem.keeps_write _ text _) (by simpa using hpath)
  | writeFailed _ hfail ih =>
    exact hstep ih (FileSystem.keeps_write_error hfail) (List.nil_subset _)
  | append _ hpath text ih =>
    exact hstep ih (FileSystem.keeps_append _ text _) (by simpa using hpath)
  | createDirs _ p ih =>
    intro place
    rw [FileSystem.text?_createDirs]
    refine (ih place).imp_right ?_
    rintro ⟨q, hq, hlocate⟩
    exact ⟨q, hq, FileSystem.locate_createDirs p hlocate⟩

theorem Log.keeps_of_exec_write (log : Log) {notices : List Notice}
    (h : exec (log.write notices) disk = (.ok (), disk')) : Keeps log.file.toList disk disk' := by
  unfold Log.write at h
  cases hfile : log.file with
  | none =>
    rw [hfile] at h
    cases h
    exact .refl _ _
  | some file =>
    rw [hfile] at h
    dsimp only at h
    split at h
    · cases h
      exact .refl _ _
    · cases h
      exact FileSystem.keeps_append file _ disk

end

/-! ## Steady file systems -/

variable [SteadyFileSystem σ π]

/-- A file that no written path leads to reads as before. -/
theorem Grows.read_eq (h : Grows paths disk disk')
    (hread : (perform (Workspace.read path) disk).1 = .ok text)
    (hapart : ∀ q ∈ paths, Apart disk' q path) :
    (perform (Workspace.read path) disk').1 = .ok text := by
  obtain ⟨place, hlocate, hlook⟩ := SteadyFileSystem.look_of_read hread
  have hlocate' := h.locate hlocate
  have htext : text? disk' place = some text := by
    rw [h.changesOnly.text?_eq hapart hlocate']
    exact FileView.text?_eq_some_iff.2 hlook
  exact SteadyFileSystem.read_again hread h hlocate' (FileView.text?_eq_some_iff.1 htext)

/-- A file that is written again with the text it has stays as it is. -/
theorem Grows.rewrite {mid : σ} (hwrite : perform (Workspace.write path text) disk = (.ok (), mid))
    (h : Grows paths mid disk') (hread : (perform (Workspace.read path) disk').1 = .ok text) :
    ∃ last, perform (Workspace.write path text) disk' = (.ok (), last) ∧ Keeps [] disk' last := by
  have h : Grows paths (perform (Workspace.write path text) disk).2 disk' := by rwa [hwrite]
  have hagain := SteadyFileSystem.write_again (congrArg Prod.fst hwrite) h
  have hkeeps := FileSystem.keeps_write path text disk'
  refine ⟨_, Prod.ext hagain rfl, hkeeps.locate_eq, fun place => .inl ?_⟩
  rcases hkeeps.look_eq place with hlook | ⟨p, hp, hlocate⟩
  · exact hlook
  -- At the place of the path the text is the same before and after.
  · obtain rfl := List.mem_singleton.1 hp
    obtain ⟨before, hbefore, hlook⟩ := SteadyFileSystem.look_of_read hread
    obtain ⟨after, hafter, hlook'⟩ :=
      SteadyFileSystem.look_of_read (SteadyFileSystem.read_written hagain)
    rw [hkeeps.locate_eq, hlocate] at hafter
    obtain rfl := Option.some.inj (hlocate.symm.trans hbefore)
    obtain rfl := Option.some.inj hafter
    rw [hlook, hlook']

end GoWeave.Command

import StraightLine.Source.Index

/-!
The texts of sources. A text in memory stands for the file of its path; files are read from the disk,
and the few used last are remembered and not read again.
-/

namespace StraightLine

/-- Texts of files read with success, the one used last in front. -/
structure Shelf where
  entries : List (Path × List Char)

namespace Shelf

def empty : Shelf := ⟨[]⟩

/-- The number of texts that a shelf holds at most. -/
def capacity : Nat := 5

/-- The text of a file, from the shelf if it is there, and the shelf afterwards. A failed reading is
not remembered. -/
def fetch (shelf : Shelf) (disk : Disk) (path : Path) : Except ReadError (List Char) × Shelf :=
  match shelf.entries.lookup path with
  | some text => (.ok text, ⟨(path, text) :: shelf.entries.filter (·.1 ≠ path)⟩)
  | none => match disk.read path with
    | .ok text => (.ok text, ⟨((path, text) :: shelf.entries).take capacity⟩)
    | .error cause => (.error cause, shelf)

section Fetch

variable {shelf : Shelf} {disk : Disk} {path : Path}

theorem fetch_of_held {text : List Char} (h : shelf.entries.lookup path = some text) :
    shelf.fetch disk path = (.ok text, ⟨(path, text) :: shelf.entries.filter (·.1 ≠ path)⟩) := by
  rw [fetch, h]

theorem fetch_of_read {text : List Char} (h : shelf.entries.lookup path = none)
    (hread : disk.read path = .ok text) :
    shelf.fetch disk path = (.ok text, ⟨((path, text) :: shelf.entries).take capacity⟩) := by
  rw [fetch, h, hread]

theorem fetch_of_unreadable {cause : ReadError} (h : shelf.entries.lookup path = none)
    (hread : disk.read path = .error cause) : shelf.fetch disk path = (.error cause, shelf) := by
  rw [fetch, h, hread]

end Fetch

end Shelf

/-- All that the texts of sources are taken from. -/
structure Library where
  index : Index
  disk : Disk
  shelf : Shelf

namespace Library

def initial : Library := ⟨.initial, .empty, .empty⟩

instance : Inhabited Library := ⟨initial⟩

/-- The text of a source, and the library with the shelf as it is afterwards. -/
def fetch (library : Library) (path : Path) : Except ReadError (List Char) × Library :=
  match library.index.text? path with
  | some text => (.ok text.toList, library)
  | none =>
    let (result, shelf) := library.shelf.fetch library.disk path
    (result, { library with shelf })

/-- A text in memory is taken as it is, and the shelf is left alone. -/
theorem fetch_of_text {library : Library} {path : Path} {text : String}
    (h : library.index.text? path = some text) :
    library.fetch path = (.ok text.toList, library) := by
  rw [fetch, h]

theorem fetch_of_file {library : Library} {path : Path} (h : library.index.text? path = none) :
    library.fetch path = ((library.shelf.fetch library.disk path).1,
      { library with shelf := (library.shelf.fetch library.disk path).2 }) := by
  rw [fetch, h]

@[simp]
theorem index_fetch (library : Library) (path : Path) :
    (library.fetch path).2.index = library.index := by
  unfold fetch
  split <;> rfl

@[simp]
theorem disk_fetch (library : Library) (path : Path) :
    (library.fetch path).2.disk = library.disk := by
  unfold fetch
  split <;> rfl

end Library

end StraightLine

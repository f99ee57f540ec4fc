import StraightLine.Proofs.Source.History
import StraightLine.Source.Library

/-!
What happens to a library in the course of a session: calls for its index, requests for the texts of
sources, and changes of the files behind its back.
-/

namespace StraightLine.Library

inductive Event where
  | call (call : Index.Call)
  | request (path : Path)
  | change (disk : Disk)

/-- The library after an event. A request may have failed. -/
def after (library : Library) : Event → Library
  | .call call => { library with index := library.index.after call }
  | .request path => (library.fetch path).2
  | .change disk => { library with disk }

def afterAll (library : Library) (events : List Event) : Library :=
  events.foldl after library

theorem afterAll_cons (library : Library) (event : Event) (events : List Event) :
    library.afterAll (event :: events) = (library.after event).afterAll events := rfl

theorem afterAll_concat (library : Library) (events : List Event) (event : Event) :
    library.afterAll (events ++ [event]) = (library.afterAll events).after event :=
  List.foldl_append

theorem afterAll_append (library : Library) (events more : List Event) :
    library.afterAll (events ++ more) = (library.afterAll events).afterAll more :=
  List.foldl_append

/-- That the text of a source can be had whatever the shelf holds. -/
def CanRead (library : Library) (path : Path) : Prop :=
  (∃ text, library.index.text? path = some text) ∨ ∃ text, library.disk.read path = .ok text

theorem CanRead.exists_fetch {library : Library} {path : Path} (h : library.CanRead path) :
    ∃ text, (library.fetch path).1 = .ok text := by
  cases hknown : library.index.text? path with
  | some text => exact ⟨text.toList, by rw [fetch_of_text hknown]⟩
  | none =>
      rw [fetch_of_file hknown]
      cases hheld : library.shelf.entries.lookup path with
      | some text => exact ⟨text, by rw [Shelf.fetch_of_held hheld]⟩
      | none =>
          obtain ⟨text, htext⟩ | ⟨text, hread⟩ := h
          · rw [htext] at hknown
            cases hknown
          · exact ⟨text, by rw [Shelf.fetch_of_read hheld hread]⟩

/-- A request changes nothing about which sources can be read. -/
theorem CanRead.after_fetch {library : Library} {path : Path} (h : library.CanRead path)
    (other : Path) : (library.fetch other).2.CanRead path := by
  rw [CanRead, index_fetch, disk_fetch]
  exact h

/-- **A request that fails leaves the library as it was.** -/
theorem fetch_of_error {library : Library} {path : Path} {cause : ReadError}
    (h : (library.fetch path).1 = .error cause) : (library.fetch path).2 = library := by
  cases hknown : library.index.text? path with
  | some text => rw [fetch_of_text hknown]
  | none =>
      rw [fetch_of_file hknown] at h ⊢
      cases hheld : library.shelf.entries.lookup path with
      | some text =>
          rw [Shelf.fetch_of_held hheld] at h
          cases h
      | none =>
          cases hread : library.disk.read path with
          | ok text =>
              rw [Shelf.fetch_of_read hheld hread] at h
              cases h
          | error cause => rw [Shelf.fetch_of_unreadable hheld hread]

end StraightLine.Library

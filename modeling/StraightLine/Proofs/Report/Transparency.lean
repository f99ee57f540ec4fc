import Mathlib.Data.List.Induction
import StraightLine.Proofs.Report.Headings
import StraightLine.Proofs.Source.Recency

/-!
The texts of pictures in the course of a session. A text in memory comes before any file. Of files
the shelf keeps what was read, so as long as no file changes it gives the texts that the files
have; and where files change, the order of the paths on the shelf says which files are read anew.
-/

namespace StraightLine.Library

/-! ### Texts in memory -/

def Event.isReset : Event → Bool
  | .call .reset => true
  | .call _ | .request _ | .change _ => false

/-- The text that an event gives for a path, if it gives one. -/
def Event.given? (path : Path) : Event → Option String
  | .call (.openSegment (some opened) (some text)) => if path = opened then some text else none
  | .call _ | .request _ | .change _ => none

/-- The text given last for a path since the last reset. -/
def givenLast? (path : Path) (events : List Event) : Option String :=
  (events.reverse.takeWhile (!·.isReset)).findSome? (Event.given? path)

theorem givenLast?_concat (path : Path) (events : List Event) (event : Event) :
    givenLast? path (events ++ [event]) =
      if event.isReset then none else (event.given? path).or (givenLast? path events) := by
  rw [givenLast?, List.reverse_append, List.reverse_singleton, List.singleton_append,
    List.takeWhile_cons]
  cases event.isReset with
  | true => rfl
  | false =>
      simp only [Bool.not_false, if_true, Bool.false_eq_true, if_false, List.findSome?_cons]
      cases event.given? path <;> rfl

theorem text?_after (library : Library) (event : Event) (path : Path) :
    (library.after event).index.text? path =
      if event.isReset then none else (event.given? path).or (library.index.text? path) := by
  cases event with
  | request other => simp only [after, index_fetch]; rfl
  | change disk => rfl
  | call call =>
      cases call with
      | reset => rfl
      | insert start stop => rfl
      | openSegment opened text =>
          cases opened with
          | none => cases text <;> rfl
          | some opened =>
              cases text with
              | none => rfl
              | some text =>
                  let event : Event := .call (.openSegment (some opened) (some text))
                  have hopened : (library.after event).index.text? path =
                      ((opened, text) :: library.index.texts).lookup path := rfl
                  have hreset : event.isReset = false := rfl
                  rw [hopened, List.lookup_cons, hreset, if_neg Bool.false_ne_true, Event.given?]
                  by_cases heq : path = opened
                  · rw [if_pos heq, beq_iff_eq.mpr heq]
                    rfl
                  · rw [if_neg heq, beq_eq_false_iff_ne.mpr heq]
                    rfl

theorem text?_afterAll {library : Library} {path : Path} (h : library.index.text? path = none)
    (events : List Event) :
    (library.afterAll events).index.text? path = givenLast? path events := by
  induction events using List.reverseRecOn with
  | nil => exact h
  | append_singleton events event ih => rw [afterAll_concat, text?_after, givenLast?_concat, ih]

/-! ### Files -/

/-- That a request for a path reads its file. -/
def Reads (library : Library) (path : Path) : Prop :=
  library.index.text? path = none ∧ path ∉ library.shelf.paths

/-- The path that an event fetches as a file with success, if it does, from the disk or the shelf.
-/
def fileFetched? (library : Library) : Event → Option Path
  | .request path => match library.index.text? path, (library.fetch path).1 with
    | none, .ok _ => some path
    | _, _ => none
  | .call _ | .change _ => none

/-- The paths that events fetch as files with success, the last one in front. -/
def filesFetched (library : Library) : List Event → List Path
  | [] => []
  | event :: events =>
    (library.after event).filesFetched events ++ (library.fileFetched? event).toList

theorem filesFetched_concat (library : Library) (events : List Event) (event : Event) :
    library.filesFetched (events ++ [event]) =
      ((library.afterAll events).fileFetched? event).toList ++ library.filesFetched events := by
  induction events generalizing library with
  | nil => exact (List.append_nil _).symm
  | cons first events ih =>
      rw [List.cons_append, filesFetched, ih, List.append_assoc]
      rfl

/-- That among some events there is a request which read a text from the file of a path. -/
def HasRead (library : Library) (events : List Event) (path : Path) (text : List Char) : Prop :=
  ∃ earlier, earlier ++ [.request path] <+: events ∧ (library.afterAll earlier).Reads path ∧
    (library.afterAll earlier).disk.read path = .ok text

theorem HasRead.append {library : Library} {events : List Event} {path : Path} {text : List Char}
    (h : library.HasRead events path text) (more : List Event) :
    library.HasRead (events ++ more) path text := by
  obtain ⟨earlier, hbefore, hread⟩ := h
  exact ⟨earlier, hbefore.trans (List.prefix_append events more), hread⟩

/-- What an event does to the shelf: nothing, unless it fetches a file with success. -/
theorem shelf_after_cases (library : Library) (event : Event) :
    (library.after event).shelf = library.shelf ∧ library.fileFetched? event = none ∨
      ∃ path text, event = .request path ∧ library.index.text? path = none ∧
        (library.shelf.fetch library.disk path).1 = .ok text ∧
          library.fileFetched? event = some path ∧
            (library.after event).shelf = (library.shelf.fetch library.disk path).2 := by
  cases event with
  | call call | change disk => exact Or.inl ⟨rfl, rfl⟩
  | request path =>
      cases hknown : library.index.text? path with
      | some text =>
          exact Or.inl ⟨by rw [after, fetch_of_text hknown], by rw [fileFetched?, hknown]⟩
      | none =>
          cases hresult : (library.fetch path).1 with
          | error cause =>
              exact Or.inl ⟨by rw [after, fetch_of_error hresult],
                by rw [fileFetched?, hknown, hresult]⟩
          | ok text =>
              have hfile := fetch_of_file hknown
              refine Or.inr ⟨path, text, rfl, hknown, ?_, by rw [fileFetched?, hknown, hresult], ?_⟩
              · rw [← hresult, hfile]
              · rw [after, hfile]

/-- That a shelf tells what happened: which files were fetched last, and what was read from them. -/
structure Remembers (start : Library) (events : List Event) : Prop where
  paths_eq : (start.afterAll events).shelf.paths =
    (start.filesFetched events).eraseDups.take Shelf.capacity
  read : ∀ entry ∈ (start.afterAll events).shelf.entries, start.HasRead events entry.1 entry.2

/-- **An event keeps a shelf true to what happened.** -/
theorem Remembers.concat {start : Library} {events : List Event} (h : start.Remembers events)
    (event : Event) : start.Remembers (events ++ [event]) := by
  rcases (start.afterAll events).shelf_after_cases event with
    ⟨hshelf, hnone⟩ | ⟨path, text, rfl, hknown, hresult, hsome, hshelf⟩
  · constructor
    · rw [afterAll_concat, hshelf, filesFetched_concat, hnone]
      exact h.paths_eq
    · intro entry hentry
      rw [afterAll_concat, hshelf] at hentry
      exact (h.read entry hentry).append [event]
  · constructor
    · rw [afterAll_concat, hshelf, filesFetched_concat, hsome,
        Shelf.paths_fetch_of_recent h.paths_eq hresult]
      rfl
    · intro entry hentry
      rw [afterAll_concat, hshelf] at hentry
      rcases Shelf.mem_entries_fetch hentry with hmem | ⟨hpath, hheld, hread⟩
      · exact (h.read entry hmem).append _
      · rw [hpath]
        exact ⟨events, List.prefix_rfl, ⟨hknown, Shelf.lookup_eq_none_iff.mp hheld⟩, hread⟩

theorem remembers_of_empty {start : Library} (h : start.shelf = .empty) (events : List Event) :
    start.Remembers events := by
  induction events using List.reverseRecOn with
  | nil =>
      constructor
      · rw [afterAll, List.foldl_nil, h]
        rfl
      · intro entry hentry
        rw [afterAll, List.foldl_nil, h] at hentry
        cases hentry
  | append_singleton events event ih => exact ih.concat event

/-! ### Pictures -/

theorem fetch_of_reads {library : Library} {path : Path} (h : library.Reads path) :
    (library.fetch path).1 = library.disk.read path := by
  have hheld := Shelf.lookup_eq_none_iff.mpr h.2
  rw [fetch_of_file h.1]
  cases hread : library.disk.read path with
  | ok text => rw [Shelf.fetch_of_read hheld hread]
  | error cause => rw [Shelf.fetch_of_unreadable hheld hread]

/-- A path without a text in memory has one that was read from its file at some time, or now. -/
theorem Remembers.hasRead {start : Library} {events : List Event} (h : start.Remembers events)
    {path : Path} (hknown : (start.afterAll events).index.text? path = none) {text : List Char}
    (htext : ((start.afterAll events).fetch path).1 = .ok text) :
    start.HasRead (events ++ [.request path]) path text := by
  cases hheld : (start.afterAll events).shelf.entries.lookup path with
  | some held =>
      rw [fetch_of_file hknown, Shelf.fetch_of_held hheld] at htext
      cases htext
      exact (h.read _ (Shelf.mem_entries_of_lookup hheld)).append _
  | none =>
      have hreads : (start.afterAll events).Reads path :=
        ⟨hknown, Shelf.lookup_eq_none_iff.mp hheld⟩
      exact ⟨events, List.prefix_rfl, hreads, (fetch_of_reads hreads).symm.trans htext⟩

/-- A path that cannot be fetched is one whose file cannot be read now. -/
theorem reads_of_error {library : Library} {path : Path} {cause : ReadError}
    (h : (library.fetch path).1 = .error cause) : library.Reads path := by
  cases hknown : library.index.text? path with
  | some text =>
      rw [fetch_of_text hknown] at h
      cases h
  | none =>
      refine ⟨hknown, Shelf.lookup_eq_none_iff.mp (Option.eq_none_iff_forall_ne_some.mpr ?_)⟩
      intro text hheld
      rw [fetch_of_file hknown, Shelf.fetch_of_held hheld] at h
      cases h

def Event.IsChange (event : Event) : Prop :=
  ∃ disk, event = .change disk

theorem disk_afterAll (library : Library) {events : List Event}
    (h : ∀ event ∈ events, ¬event.IsChange) : (library.afterAll events).disk = library.disk := by
  induction events generalizing library with
  | nil => rfl
  | cons event events ih =>
      rw [List.forall_mem_cons] at h
      rw [afterAll_cons, ih _ h.2]
      cases event with
      | call call => rfl
      | request path => exact disk_fetch library path
      | change disk => exact absurd ⟨disk, rfl⟩ h.1

/-- What was read while no file changed is what the file has. -/
theorem HasRead.read_eq {library : Library} {events : List Event} {path : Path} {text : List Char}
    (h : library.HasRead events path text) (hchange : ∀ event ∈ events, ¬event.IsChange) :
    library.disk.read path = .ok text := by
  obtain ⟨earlier, hbefore, -, hread⟩ := h
  rwa [library.disk_afterAll fun event hevent =>
    hchange event (hbefore.subset (List.mem_append_left _ hevent))] at hread

/-- **The shelf is transparent.** In the course of a session a picture of a path shows the text
given last for it since the last reset, if there is one. Otherwise it shows what was read from its
file at some time, or now: if no file was changed, what the file has, with the same error if it has
no text. The shelf holds five paths at most, each of them once; no reading that failed is on it,
and a path that is not among the five fetched last is read anew. An issue asks for the sources of its
pictures one after another, each request in the course of the session that the ones before it go on
with. If all can be read, its text shows the pictures drawn from them; otherwise it has no text for the
reason that the first one cannot be read. -/
theorem pictures_through_shelf (disk : Disk) (events : List Event) (path : Path) :
    let start : Library := ⟨.initial, disk, .empty⟩
    let library := start.afterAll events
    let answer := (library.fetch path).1
    (∀ text, givenLast? path events = some text → answer = .ok text.toList) ∧
      (givenLast? path events = none →
        ((∀ event ∈ events, ¬event.IsChange) → answer = disk.read path) ∧
          (∀ text, answer = .ok text → start.HasRead (events ++ [.request path]) path text) ∧
            (path ∉ (start.filesFetched events).eraseDups.take 5 →
              library.Reads path ∧ answer = library.disk.read path)) ∧
        library.shelf.paths.length ≤ 5 ∧ library.shelf.paths.Nodup ∧
          (∀ entry ∈ library.shelf.entries, start.HasRead events entry.1 entry.2) ∧
            (∀ cause, answer = .error cause →
              library.Reads path ∧ (library.fetch path).2 = library) ∧
              ∀ (tools : Illustrator) (issue : Issue),
                (∃ blocks later, library.Illustrates tools issue.marks blocks later ∧
                  later = start.afterAll (events ++ requestsFor issue.marks) ∧
                    issue.text tools library = (.ok ("\n".intercalate (issue.intro :: "" ::
                      ((Block.withHeadings none blocks).map Block.text ++ issue.footer))), later)) ∨
                  ∃ lost cause reached, library.StopsAt tools issue.marks lost cause reached ∧
                    ¬library.CanRead lost ∧
                      (∃ front, front <+: issue.marks ∧
                        reached = start.afterAll (events ++ requestsFor front)) ∧
                        issue.text tools library = (.error (.unreadable cause), reached) := by
  intro start library answer
  have hremembers : start.Remembers events := remembers_of_empty rfl events
  have hgiven : library.index.text? path = givenLast? path events := text?_afterAll rfl events
  refine ⟨fun text htext => ?_, fun hnone => ⟨fun hchange => ?_, fun text htext => ?_, fun hnot => ?_⟩,
    ?_, ?_, hremembers.read, fun cause hcause => ⟨reads_of_error hcause, fetch_of_error hcause⟩,
    fun tools issue => ?_⟩
  · exact congrArg Prod.fst (fetch_of_text (hgiven.trans htext))
  · cases hanswer : (library.fetch path).1 with
    | error cause =>
        have hdisk : library.disk = disk := start.disk_afterAll hchange
        exact hdisk ▸ fetch_of_reads (reads_of_error hanswer)
    | ok text =>
        have hread := hremembers.hasRead (hgiven.trans hnone) hanswer
        refine hanswer.trans (hread.read_eq fun event hevent => ?_).symm
        rcases List.mem_append.mp hevent with hmem | hlast
        · exact hchange event hmem
        · rw [List.mem_singleton.mp hlast]
          rintro ⟨_, hchanged⟩
          cases hchanged
  · exact hremembers.hasRead (hgiven.trans hnone) htext
  · have hreads : library.Reads path := ⟨hgiven.trans hnone, hremembers.paths_eq ▸ hnot⟩
    exact ⟨hreads, fetch_of_reads hreads⟩
  · rw [hremembers.paths_eq]
    exact List.length_take_le _ _
  · rw [hremembers.paths_eq]
    exact (nodup_eraseDups _).sublist (List.take_sublist _ _)
  · rcases library.illustrates_or_stopsAt tools issue.marks with
      ⟨blocks, later, hblocks⟩ | ⟨lost, cause, reached, hstops⟩
    · refine Or.inl ⟨blocks, later, hblocks, ?_, ?_⟩
      · rw [afterAll_append]
        exact hblocks.later_eq
      · rw [Issue.text, hblocks.body_eq]
        rfl
    · obtain ⟨front, hfront, hreached⟩ := hstops.reached_eq
      refine Or.inr ⟨lost, cause, reached, hstops, hstops.not_canRead, ⟨front, hfront, ?_⟩, ?_⟩
      · rw [afterAll_append]
        exact hreached
      · rw [Issue.text, hstops.body_eq]
        rfl

/-- The first of six files is off the shelf when all were fetched, and what it has now is shown. -/
theorem pictures_through_shelf_evicted :
    let path : String → Path := fun name => ⟨.here, ["src", name]⟩
    let names := ["a", "b", "c", "d", "e", "f"]
    let disk : Disk := ⟨fun _ => .ok [120]⟩
    let start : Library := ⟨.initial, disk, .empty⟩
    let events : List Event :=
      names.map (fun name => .request (path name)) ++ [.change ⟨fun _ => .ok [121]⟩]
    givenLast? (path "a") events = none ∧
      path "a" ∉ (start.filesFetched events).eraseDups.take 5 ∧
        (start.afterAll events).shelf.paths = ["f", "e", "d", "c", "b"].map path ∧
          ((start.afterAll events).fetch (path "a")).1 = .ok ['y'] := by
  intro path names disk start events
  have hnone : givenLast? (path "a") events = none := rfl
  have hnot : path "a" ∉ (start.filesFetched events).eraseDups.take 5 := by decide +kernel
  have hpaths : (start.afterAll events).shelf.paths = ["f", "e", "d", "c", "b"].map path := by
    decide +kernel
  have hnow : (start.afterAll events).disk.read (path "a") = .ok ['y'] := by decide +kernel
  have h := ((pictures_through_shelf disk events (path "a")).2.1 hnone).2.2 hnot
  exact ⟨hnone, hnot, hpaths, h.2.trans hnow⟩

end StraightLine.Library

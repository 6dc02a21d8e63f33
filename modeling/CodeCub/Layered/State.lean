import CodeCub.Python.Find
import CodeCub.Python.JsonEq
import CodeCub.Models.EventStream
import CodeCub.Layered.Clip

/-!
# The normalised memory state

`normalize_memory_state` of `codecub/memory.py`, which every operation applies before it
does anything else.  A state is a `dict` of JSON values, possibly of an older layout.
-/

namespace CodeCub
namespace Layered

open Python
open Models (Fields truthy getOr)

variable {F : Type} [FiniteFloat F]

/-- What normalisation asks the interpreter, the clock and the file system: `str` and `int`
of a value, a fixed `now()`, `Path(text).as_posix()`, the path below the workspace root that
`(root / path).resolve()` is, and the topics of the index.  Without a root nothing is
inside. -/
structure Host (F : Type) where
  str : Json Str F → Str
  int : Json Str F → Option Int
  now : Str
  posix : Str → Str
  inside : Str → Option Str
  topicSlugs : List Str
  str_str : ∀ text, str (.str text) = text
  int_int : ∀ n, int (.int n) = some n
  now_ne : now ≠ []
  now_stripped : stripList isSpace now = now
  posix_posix : ∀ path, posix (posix path) = posix path
  inside_posix : ∀ path, inside (posix path) = inside path
  /-- On an unchanged file system a resolved path resolves to itself. -/
  inside_inside : ∀ path inner, inside path = some inner → inside inner = some inner

def workingFileLimit : Nat := 8
def episodicNoteLimit : Nat := 12

/-- `fields[key] = value`. -/
def set (fields : Fields F) (key : String) (value : Json Str F) : Fields F :=
  assign key.toList value fields

def strings (texts : List Str) : Json Str F := .arr (texts.map .str)

/-- `_ensure_list`. -/
def ensureList : Json Str F → List (Json Str F)
  | .arr items => items
  | .null => []
  | .str [] => []
  | value => [value]

structure Note where
  text : Str
  tags : List Str := []
  source : Str := []
  createdAt : Str
  noteIndex : Int
  kind : Str := "episodic".toList
  deriving DecidableEq

def Note.fields (note : Note) : Fields F :=
  [("text".toList, .str note.text), ("tags".toList, strings note.tags),
    ("source".toList, .str note.source), ("created_at".toList, .str note.createdAt),
    ("note_index".toList, .int note.noteIndex), ("kind".toList, .str note.kind)]

structure FileSummary where
  summary : Str
  createdAt : Str
  freshness : Option Str
  deriving DecidableEq

def FileSummary.json (entry : FileSummary) : Json Str F :=
  .obj [("summary".toList, .str entry.summary), ("created_at".toList, .str entry.createdAt),
    ("freshness".toList, match entry.freshness with | none => .null | some text => .str text)]

/-- What normalisation finds in a state. -/
structure Normalized where
  task : Str
  files : List Str
  notes : List Note
  summaries : List (Str × FileSummary)
  next : Int
  deriving DecidableEq

namespace Host

variable (host : Host F)

/-- `str(value).strip()`. -/
def text (value : Json Str F) : Str := stripList isSpace (host.str value)

/-- `canonicalize_path`. -/
def canonicalizePath (path : Str) : Str := (host.inside path).getD (host.posix path)

/-! ## The working set -/

def working (state : Fields F) : Fields F :=
  match getOr state "working" .null with
  | .obj fields => fields
  | _ => []

def taskSummary (state : Fields F) : Str :=
  let own := clip (host.text (getOr (working state) "task_summary" (.str []))) 300
  if stripList isSpace own = [] ∧ truthy (getOr state "task" .null) then
    clip (host.text (getOr state "task" (.str []))) 300
  else own

/-- The canonical paths of a list, the last eight of them. -/
def recentPaths (value : Json Str F) : List Str :=
  lastN workingFileLimit (dedupe (((ensureList value).filter fun path => host.text path ≠ []).map
    fun path => host.canonicalizePath (host.str path)))

def recentFiles (state : Fields F) : List Str :=
  let own := host.recentPaths (getOr (working state) "recent_files" (.arr []))
  if own = [] ∧ truthy (getOr state "files" .null) then
    host.recentPaths (getOr state "files" (.arr []))
  else own

/-! ## Notes -/

/-- The tags of a note. -/
def tagList (value : Json Str F) : List Str :=
  dedupe (((ensureList value).map host.text).filter (· ≠ []))

/-- `_normalize_note`, `none` where `int` raises. -/
def normalizeNote (note : Json Str F) (index : Nat) : Option Note :=
  match note with
  | .obj fields => do
      let noteIndex ← host.int (getOr fields "note_index" (.int index))
      let createdAt := host.text (getOr fields "created_at" (.str []))
      let kind := host.text (getOr fields "kind" (.str "episodic".toList))
      some
        { text := clip (host.text (getOr fields "text" (.str []))) 500
          tags := host.tagList (getOr fields "tags" (.arr []))
          source := host.text (getOr fields "source" (.str []))
          createdAt := if createdAt = [] then host.now else createdAt
          noteIndex := noteIndex
          kind := if kind = [] then "episodic".toList else kind }
  | other => some { text := clip (host.text other) 500, createdAt := host.now, noteIndex := index }

def isStr : Json Str F → Bool
  | .str _ => true
  | _ => false

/-- The notes that are normalised, each with its place in the list it comes from. -/
def rawNotes (state : Fields F) : List (Json Str F × Nat) :=
  let episodic := match getOr state "episodic_notes" .null with
    | .arr items => items
    | _ => []
  if episodic = [] ∧ truthy (getOr state "notes" .null) then
    (ensureList (getOr state "notes" (.arr []))).zipIdx.filter fun note => host.text note.1 ≠ []
  else episodic.zipIdx.filter fun note => ¬ (isStr note.1 ∧ host.text note.1 = [])

def episodicNotes (state : Fields F) : Option (List Note) :=
  ((host.rawNotes state).mapM fun note => host.normalizeNote note.1 note.2).map
    (lastN episodicNoteLimit)

/-! ## File summaries -/

/-- The text of a summary before it is clipped. -/
def summarySource : Json Str F → Str
  | .obj fields => host.text (getOr fields "summary" (.str []))
  | other => host.text other

def normalizeSummary (value : Json Str F) : FileSummary :=
  match value with
  | .obj fields =>
      let createdAt := host.text (getOr fields "created_at" (.str []))
      { summary := clip (host.summarySource value) 500
        createdAt := if createdAt = [] then host.now else createdAt
        freshness := match getOr fields "freshness" .null with
          | .null => none
          | freshness => if host.text freshness = [] then none else some (host.text freshness) }
  | _ => { summary := clip (host.summarySource value) 500, createdAt := host.now, freshness := none }

/-- The last summary that is not empty of each canonical path. -/
def keptSummaries (state : Fields F) : List (Str × Json Str F) :=
  let items := match getOr state "file_summaries" .null with
    | .obj items => items
    | _ => []
  items.foldl (fun kept item =>
    if host.canonicalizePath item.1 = [] ∨ host.summarySource item.2 = [] then kept
    else assign (host.canonicalizePath item.1) item.2 kept) []

def fileSummaries (state : Fields F) : List (Str × FileSummary) :=
  (host.keptSummaries state).map fun entry => (entry.1, host.normalizeSummary entry.2)

/-! ## The whole state -/

/-- `max([...], default=-1)`. -/
def maxIndex : List Note → Int
  | [] => -1
  | first :: rest => rest.foldl (fun greatest note => max greatest note.noteIndex) first.noteIndex

/-- A boolean is an integer. -/
def nextNoteIndex (state : Fields F) (notes : List Note) : Int :=
  let own : Int := match getOr state "next_note_index" .null with
    | .int n => if n < 0 then 0 else n
    | .bool true => 1
    | _ => 0
  max own (maxIndex notes + 1)

def normalized (state : Fields F) : Option Normalized :=
  (host.episodicNotes state).map fun notes =>
    { task := host.taskSummary state, files := host.recentFiles state, notes := notes
      summaries := host.fileSummaries state, next := nextNoteIndex state notes }

/-- The state with what was found written back into it. -/
def write (state : Fields F) (n : Normalized) : Fields F :=
  let working := set (set (working state) "task_summary" (.str n.task)) "recent_files"
    (strings n.files)
  let state := set state "working" (.obj working)
  let state := set state "episodic_notes" (.arr (n.notes.map fun note => .obj note.fields))
  let state := set state "file_summaries"
    (.obj (n.summaries.map fun entry => (entry.1, entry.2.json)))
  let state := set state "next_note_index" (.int n.next)
  let state := set state "task" (.str n.task)
  let state := set state "files" (strings n.files)
  let state := set state "notes" (strings (n.notes.map Note.text))
  set state "durable_topics" (strings host.topicSlugs)

/-- `default_memory_state()`. -/
def defaultMemoryState : Fields F :=
  [("working".toList, .obj [("task_summary".toList, .str []), ("recent_files".toList, .arr [])]),
    ("episodic_notes".toList, .arr []), ("file_summaries".toList, .obj []),
    ("task".toList, .str []), ("files".toList, .arr []), ("notes".toList, .arr []),
    ("next_note_index".toList, .int 0)]

/-- `normalize_memory_state`, `none` where it raises: on a state that is no `dict`, or a
`note_index` that is no integer. -/
def normalizeMemoryState (state : Json Str F) : Option (Json Str F) :=
  match state with
  | .null => (host.normalized defaultMemoryState).map fun n => .obj (host.write defaultMemoryState n)
  | .obj fields => (host.normalized fields).map fun n => .obj (host.write fields n)
  | _ => none

end Host

/-! ## Reading a written state -/

section Written

omit [FiniteFloat F]

variable {host : Host F} {fields other : Fields F} {n m : Normalized}

theorem lookup_set (fields : Fields F) (key : String) (value : Json Str F) (other : Str) :
    (set fields key value).lookup other =
      if other = key.toList then some value else fields.lookup other :=
  lookup_assign key.toList other value fields

theorem set_of_lookup {key : String} {value : Json Str F}
    (h : fields.lookup key.toList = some value) : set fields key value = fields :=
  assign_of_lookup h

theorem getOr_of_lookup {key : String} {value : Json Str F}
    (h : fields.lookup key.toList = some value) (default : Json Str F) :
    getOr fields key default = value := by
  rw [getOr, h]
  rfl

/-- The working set holds these values. -/
structure WorkingIs (fields : Fields F) (n : Normalized) : Prop where
  task : fields.lookup "task_summary".toList = some (.str n.task)
  files : fields.lookup "recent_files".toList = some (strings n.files)

/-- A state that holds the values of a normalised one. -/
structure Written (host : Host F) (fields : Fields F) (n : Normalized) : Prop where
  working : ∃ inner, fields.lookup "working".toList = some (.obj inner) ∧ WorkingIs inner n
  episodic : fields.lookup "episodic_notes".toList =
    some (.arr (n.notes.map fun note => .obj note.fields))
  summaries : fields.lookup "file_summaries".toList =
    some (.obj (n.summaries.map fun entry => (entry.1, entry.2.json)))
  next : fields.lookup "next_note_index".toList = some (.int n.next)
  task : fields.lookup "task".toList = some (.str n.task)
  files : fields.lookup "files".toList = some (strings n.files)
  notes : fields.lookup "notes".toList = some (strings (n.notes.map Note.text))
  topics : fields.lookup "durable_topics".toList = some (strings host.topicSlugs)

theorem written_write (host : Host F) (fields : Fields F) (n : Normalized) :
    Written host (host.write fields n) n where
  working := by
    refine ⟨set (set (Host.working fields) "task_summary" (.str n.task)) "recent_files"
      (strings n.files), ?_, ⟨?_, ?_⟩⟩
    · unfold Host.write
      simp only [lookup_set]
      rfl
    · simp only [lookup_set]
      rfl
    · simp only [lookup_set]
      rfl
  episodic := by
    unfold Host.write
    simp only [lookup_set]
    rfl
  summaries := by
    unfold Host.write
    simp only [lookup_set]
    rfl
  next := by
    unfold Host.write
    simp only [lookup_set]
    rfl
  task := by
    unfold Host.write
    simp only [lookup_set]
    rfl
  files := by
    unfold Host.write
    simp only [lookup_set]
    rfl
  notes := by
    unfold Host.write
    simp only [lookup_set]
    rfl
  topics := by
    unfold Host.write
    simp only [lookup_set]
    rfl

/-- Writing the values that are there. -/
theorem write_of_written (h : Written host fields n) : host.write fields n = fields := by
  obtain ⟨inner, hinner, hworking⟩ := h.working
  have hsame : Host.working fields = inner := by
    unfold Host.working
    rw [getOr_of_lookup hinner]
  unfold Host.write
  dsimp only
  rw [hsame, set_of_lookup hworking.task, set_of_lookup hworking.files, set_of_lookup hinner,
    set_of_lookup h.episodic, set_of_lookup h.summaries, set_of_lookup h.next,
    set_of_lookup h.task, set_of_lookup h.files, set_of_lookup h.notes, set_of_lookup h.topics]

theorem strings_injective {a b : List Str} (h : (strings a : Json Str F) = strings b) : a = b := by
  unfold strings at h
  rw [Json.arr.injEq] at h
  exact List.map_injective_iff.mpr (fun _ _ hstr => Json.str.inj hstr) h

theorem Note.fields_injective {a b : Note} (h : (a.fields : Fields F) = b.fields) : a = b := by
  cases a
  cases b
  unfold Note.fields at h
  simp only [List.cons.injEq, Prod.mk.injEq, Json.str.injEq, Json.int.injEq, true_and,
    and_true] at h
  obtain ⟨rfl, htags, rfl, rfl, rfl, rfl⟩ := h
  rw [strings_injective htags]

theorem FileSummary.json_injective {a b : FileSummary} (h : (a.json : Json Str F) = b.json) :
    a = b := by
  cases a with
  | mk summary createdAt freshness =>
      cases b with
      | mk summary' createdAt' freshness' =>
          unfold FileSummary.json at h
          simp only [Json.obj.injEq, List.cons.injEq, Prod.mk.injEq, Json.str.injEq, true_and,
            and_true] at h
          obtain ⟨rfl, rfl, hfresh⟩ := h
          cases freshness <;> cases freshness' <;> simp_all

/-- A state holds the values of one normalised state only. -/
theorem Written.unique (h : Written host fields n) (h' : Written host fields m) : m = n := by
  have htask : m.task = n.task := by
    have heq := h'.task.symm.trans h.task
    rw [Option.some.injEq, Json.str.injEq] at heq
    exact heq
  have hfiles : m.files = n.files := by
    have heq := h'.files.symm.trans h.files
    rw [Option.some.injEq] at heq
    exact strings_injective heq
  have hnotes : m.notes = n.notes := by
    have heq := h'.episodic.symm.trans h.episodic
    rw [Option.some.injEq, Json.arr.injEq] at heq
    exact List.map_injective_iff.mpr
      (fun _ _ hnote => Note.fields_injective (Json.obj.inj hnote)) heq
  have hsummaries : m.summaries = n.summaries := by
    have heq := h'.summaries.symm.trans h.summaries
    rw [Option.some.injEq, Json.obj.injEq] at heq
    refine List.map_injective_iff.mpr (fun a b hentry => ?_) heq
    rw [Prod.mk.injEq] at hentry
    exact Prod.ext hentry.1 (FileSummary.json_injective hentry.2)
  have hnext : m.next = n.next := by
    have heq := h'.next.symm.trans h.next
    rw [Option.some.injEq, Json.int.injEq] at heq
    exact heq
  cases m
  cases n
  simp only at htask hfiles hnotes hsummaries hnext
  rw [htask, hfiles, hnotes, hsummaries, hnext]

end Written

end Layered
end CodeCub

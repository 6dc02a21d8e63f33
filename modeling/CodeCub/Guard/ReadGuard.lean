import CodeCub.Guard.Spans
import CodeCub.Machine.Run
import CodeCub.Python.Path
import Mathlib.Algebra.Ring.Int.Defs

/-!
# The read guard

A `read_file` whose lines were already read at the same file version is suppressed,
or trimmed to the lines that were not.  Records are keyed by the case-folded path,
and the version is the digest of the file that this folded path denotes.  The
workspace answers through `Workspace`: how a raw path resolves below the root, and
how a file's bytes are digested.
-/

namespace CodeCub
namespace Guard

open Python

/-- The outside of the guard: `str.casefold`, path resolution below the workspace
root (`none` when the path leaves it) and SHA-256 of a file's bytes. -/
structure Workspace (P C : Type) where
  casefold : String → String
  resolve : String → Option P
  sha256 : C → String

structure ReadRangeRecord where
  path : String
  startLine : Int
  endLine : Int
  freshness : Option String
  step : Nat
  deriving DecidableEq, Repr

namespace ReadRangeRecord

def span (record : ReadRangeRecord) : Span := (record.startLine, record.endLine)

/-- Two records of the same file at the same version. -/
def compatible (record other : ReadRangeRecord) : Bool :=
  record.path == other.path && record.freshness == other.freshness

end ReadRangeRecord

structure ReadCoverage where
  coveredRanges : List Span
  uncoveredRanges : List Span
  previousStep : Nat
  deriving DecidableEq, Repr

def ReadCoverage.fullyCovered (coverage : ReadCoverage) : Bool :=
  coverage.uncoveredRanges.isEmpty

structure ReadArgs where
  path : String
  start : Option Int := none
  stop : Option Int := none
  force : Bool := false
  deriving DecidableEq, Repr

namespace ReadArgs

def startLine (args : ReadArgs) : Int := args.start.getD 1

def endLine (args : ReadArgs) : Int := args.stop.getD 200

def span (args : ReadArgs) : Span := (args.startLine, args.endLine)

end ReadArgs

/-- The part of a turn's planning state that the guard keeps. -/
structure Planning where
  readRangeLedger : List ReadRangeRecord := []
  readGuardTriggered : Nat := 0
  redundantReadSuppressed : Nat := 0
  redundantReadForced : Nat := 0
  readGuardDeltaReads : Nat := 0
  readGuardDeltaLinesReturned : Int := 0
  readGuardCoveredLinesSkipped : Int := 0
  deriving DecidableEq, Repr

/-- A successful read: the file, its content, what was asked and what came back. -/
structure ReadEvent (P C : Type) where
  file : P
  content : C
  requested : Span
  returned : List Span

structure GuardState (P C : Type) where
  files : P → Option C
  planning : Planning := {}
  reads : List (ReadEvent P C) := []

inductive ReadAction
  | read
  | forced
  | staleRead
  deriving DecidableEq, Repr

/-- What `prepare` decides for a `read_file`. -/
inductive PreparedRead
  | suppressed (notice : String)
  | delta (coverage : ReadCoverage) (header : String)
  | full (action : ReadAction)
  deriving DecidableEq, Repr

inductive ReadResponse
  | rejected
  | failed
  | suppressed (notice : String)
  | returned (ranges : List Span)
  | unit
  deriving DecidableEq, Repr

/-- One event of a turn: a `read_file` at a tool step, which may still fail after
`prepare`, or any change of one file. -/
inductive GuardStep (P C : Type)
  | read (args : ReadArgs) (step : Nat) (succeeds : Bool)
  | setFile (file : P) (content : Option C)

def lexLe (a b : Span) : Bool := a.1 < b.1 || (a.1 == b.1 && a.2 ≤ b.2)

/-- `Ln-Lm, ...`. -/
def renderSpans (spans : List Span) : String :=
  String.intercalate ", " (spans.map fun s => "L" ++ toString s.1 ++ "-L" ++ toString s.2)

def lineCount (spans : List Span) : Int := (spans.map fun s => s.2 - s.1 + 1).sum

namespace Workspace

variable {P C : Type} (ws : Workspace P C)

/-- `task_policy.canonical_path`. -/
def canonicalPath (path : String) : String :=
  ws.casefold (normpath (String.ofList (path.toList.map fun c => if c = '\\' then '/' else c)))

def fileFreshness (files : P → Option C) (path : String) : Option String :=
  ((ws.resolve path).bind files).map ws.sha256

/-- The part of an earlier record that the request asks for again. -/
def overlap (start stop : Int) (record : ReadRangeRecord) : Option Span :=
  let overlapStart := max start record.startLine
  let overlapEnd := min stop record.endLine
  if overlapStart ≤ overlapEnd then some (overlapStart, overlapEnd) else none

def analyzeReadCoverage (path : String) (start stop : Int) (previous : List ReadRangeRecord)
    (currentFileVersion : Option String) : ReadCoverage :=
  let canonical := ws.canonicalPath path
  let same := previous.filter fun record =>
    record.path == canonical && record.freshness == currentFileVersion
  let matched := same.filterMap (overlap start stop)
  let steps := (same.filter fun record => (overlap start stop record).isSome).map
    ReadRangeRecord.step
  let covered := Span.mergeTouching [] (matched.mergeSort lexLe)
  { coveredRanges := covered
    uncoveredRanges := Span.gaps stop start covered
    previousStep := steps.foldl max 0 }

/-- `_assess_read_range`; `none` stands for the missing coverage of an empty path. -/
def assessReadRange (files : P → Option C) (planning : Planning) (args : ReadArgs) :
    Option ReadCoverage × Option String :=
  let path := ws.canonicalPath args.path
  if path = "" then (none, some "")
  else
    let freshness := ws.fileFreshness files path
    (some (ws.analyzeReadCoverage path args.startLine args.endLine planning.readRangeLedger
      freshness), freshness)

def redundantReadNotice (args : ReadArgs) (coverage : ReadCoverage) (action : String) : String :=
  "Read guard: " ++ ws.canonicalPath args.path ++ " L" ++ toString args.startLine ++ "-L" ++
    toString args.endLine ++ " is already covered by previous read evidence (" ++
    renderSpans coverage.coveredRanges ++ ") at step " ++ toString coverage.previousStep ++
    "; unchanged=true. No source was returned; if raw source is specifically needed, " ++
    "call read_file(..., force=True). action=" ++ action ++ "."

/-- The line above the pieces of a delta read. -/
def deltaHeader (coverage : ReadCoverage) : String :=
  "Read guard: " ++ renderSpans coverage.coveredRanges ++
    " was already available and unchanged. Only previously unseen " ++
    renderSpans coverage.uncoveredRanges ++ " is returned below.\n\n"

/-- `prepare` for `read_file`; it raises when there is no coverage to look at. -/
def prepare (files : P → Option C) (planning : Planning) (args : ReadArgs) :
    Option (PreparedRead × Planning) :=
  match (ws.assessReadRange files planning args).1 with
  | none => none
  | some coverage =>
  if coverage.coveredRanges ≠ [] ∧ args.force = false ∧ coverage.fullyCovered then
    some (.suppressed (ws.redundantReadNotice args coverage "suppressed"),
      { planning with
        readGuardTriggered := planning.readGuardTriggered + 1
        redundantReadSuppressed := planning.redundantReadSuppressed + 1
        readGuardCoveredLinesSkipped :=
          planning.readGuardCoveredLinesSkipped + lineCount coverage.coveredRanges })
  else if coverage.coveredRanges ≠ [] ∧ args.force = false then
    some (.delta coverage (deltaHeader coverage),
      { planning with
        readGuardTriggered := planning.readGuardTriggered + 1
        readGuardDeltaReads := planning.readGuardDeltaReads + 1
        readGuardDeltaLinesReturned :=
          planning.readGuardDeltaLinesReturned + lineCount coverage.uncoveredRanges
        readGuardCoveredLinesSkipped :=
          planning.readGuardCoveredLinesSkipped + lineCount coverage.coveredRanges })
  else if args.force = true ∧ coverage.coveredRanges ≠ [] then
    some (.full .forced,
      { planning with
        readGuardTriggered := planning.readGuardTriggered + 1
        redundantReadForced := planning.redundantReadForced + 1 })
  else if planning.readRangeLedger.any fun item => item.path == ws.canonicalPath args.path then
    some (.full .staleRead, planning)
  else some (.full .read, planning)

end Workspace

/-- The merging loop: `start`, `stop` and `step` grow with every record they touch,
and the records they do not touch are kept. -/
def absorb (start stop : Int) (step : Nat) (retained : List ReadRangeRecord) :
    List ReadRangeRecord → (Int × Int × Nat) × List ReadRangeRecord
  | [] => ((start, stop, step), retained)
  | record :: pending =>
      if record.endLine + 1 < start ∨ record.startLine - 1 > stop then
        absorb start stop step (retained ++ [record]) pending
      else
        absorb (min start record.startLine) (max stop record.endLine) (max step record.step)
          retained pending

/-- The order of `sorted(..., key=(step, path, start_line))`. -/
def recordLe (a b : ReadRangeRecord) : Bool :=
  a.step < b.step || (a.step == b.step && (decide (a.path < b.path) ||
    (a.path == b.path && a.startLine ≤ b.startLine)))

def mergeReadRanges (records : List ReadRangeRecord) (newRecord : ReadRangeRecord) :
    List ReadRangeRecord :=
  let compatible := records.filter fun record => record.compatible newRecord
  let retained := records.filter fun record => !record.compatible newRecord
  let pending := compatible.mergeSort fun a b => lexLe a.span b.span
  let ((start, stop, step), retained) :=
    absorb newRecord.startLine newRecord.endLine newRecord.step retained pending
  let merged : ReadRangeRecord := ⟨newRecord.path, start, stop, newRecord.freshness, step⟩
  (retained ++ [merged]).mergeSort recordLe

namespace Workspace

variable {P C : Type} (ws : Workspace P C)

def recordReadRange (files : P → Option C) (planning : Planning) (args : ReadArgs) (step : Nat) :
    Planning :=
  let path := ws.canonicalPath args.path
  if path = "" then planning
  else
    let record : ReadRangeRecord :=
      ⟨path, args.startLine, args.endLine, ws.fileFreshness files path, step⟩
    let merged := mergeReadRanges planning.readRangeLedger record
    { planning with readRangeLedger := merged.drop (merged.length - 20) }

/-- A `read_file` that was answered in full or in part, and is now on record. -/
def finalize (s : GuardState P C) (planning : Planning) (args : ReadArgs) (step : Nat) (file : P)
    (content : C) (returned : List Span) : GuardState P C × ReadResponse :=
  ({ s with
      planning := ws.recordReadRange s.files planning args step
      reads := s.reads ++ [{ file, content, requested := args.span, returned }] },
    .returned returned)

/-- One `read_file`: validation, `prepare`, the tool and `finalize`. -/
def readFile (s : GuardState P C) (args : ReadArgs) (step : Nat) (succeeds : Bool) :
    GuardState P C × ReadResponse :=
  match ws.resolve args.path with
  | none => (s, .rejected)
  | some file =>
  match s.files file with
  | none => (s, .rejected)
  | some content =>
  if args.startLine < 1 ∨ args.endLine < args.startLine then (s, .rejected)
  else
    match ws.prepare s.files s.planning args with
    | none => (s, .failed)
    | some (.suppressed notice, planning) => ({ s with planning }, .suppressed notice)
    | some (.delta coverage _, planning) =>
        if succeeds then ws.finalize s planning args step file content coverage.uncoveredRanges
        else ({ s with planning }, .failed)
    | some (.full _, planning) =>
        if succeeds then ws.finalize s planning args step file content [args.span]
        else ({ s with planning }, .failed)

variable [DecidableEq P]

def turn : Machine (GuardState P C) (GuardStep P C) ReadResponse where
  step s
    | .read args step succeeds => ws.readFile s args step succeeds
    | .setFile file content => ({ s with files := Function.update s.files file content }, .unit)

end Workspace
end Guard
end CodeCub

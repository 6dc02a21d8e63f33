import Mathlib.Data.Rat.Floor
import CodeCub.Python.Path

/-!
# Task policy

How two tool calls are compared: paths and searches and commands by a normal form,
reads by the part of the shorter range that both ask for.  `str.casefold`, `repr` and
the decimal digits of `\d` come from the interpreter's Unicode tables.
-/

namespace CodeCub
namespace Agent

open Python

structure Unicode where
  casefold : String → String
  repr : String → String
  isDecimal : Char → Bool

/-- ASCII text: lower-casing is `casefold` there. -/
def asciiUnicode : Unicode where
  casefold s := String.ofList (s.toList.map Char.toLower)
  repr s := String.singleton (Char.ofNat 0x27) ++ s ++ String.singleton (Char.ofNat 0x27)
  isDecimal := Char.isDigit

/-- What `int(args.get(key, default))` meets. -/
inductive LineArg
  | missing
  | value (n : Int)
  | invalid
  deriving DecidableEq, Repr

/-- `none` when `int` raises. -/
def LineArg.toInt (default : Int) : LineArg → Option Int
  | .missing => some default
  | .value n => some n
  | .invalid => none

/-- The arguments of a call as the policy reads them; a missing key is `none`.  `json`
is the whole dictionary, dumped with sorted keys. -/
structure ToolArgs where
  json : String := ""
  path : Option String := none
  pattern : Option String := none
  query : Option String := none
  command : Option String := none
  start : LineArg := .missing
  stop : LineArg := .missing
  deriving DecidableEq, Repr

def isActionTool (name : String) : Bool := name ∈ ["patch_file", "write_file"]

def isExplorationTool (name : String) : Bool := name ∈ ["list_files", "search", "read_file"]

/-! ## Normal forms -/

/-- `re.sub(r"\s+", " ", text)`; `inRun` tells whether a run of white space is open. -/
def collapseSpaces : Bool → List Char → List Char
  | _, [] => []
  | inRun, c :: rest =>
      if isSpace c then
        if inRun then collapseSpaces true rest else ' ' :: collapseSpaces true rest
      else c :: collapseSpaces false rest

def normalizeSpaces (s : String) : String :=
  String.ofList (collapseSpaces false (strip s).toList)

namespace Unicode

variable (u : Unicode)

/-- A missing path and an empty one both name the workspace root. -/
def canonicalPath (path : Option String) : String :=
  let slashes := (path.getD "").toList.map fun c => if c = '\\' then '/' else c
  u.casefold (normpath (String.ofList slashes))

def normalizeSearch (args : ToolArgs) : String × String :=
  (u.canonicalPath args.path, u.casefold (normalizeSpaces (args.pattern.getD "")))

def normalizeShellCommand (args : ToolArgs) : String :=
  u.casefold (normalizeSpaces (args.command.getD ""))

end Unicode

/-! ## Overlapping reads -/

/-- Overlap relative to the shorter inclusive line range; `none` when a line number is
not one. -/
def readOverlapRatio (first second : ToolArgs) : Option ℚ := do
  let startA ← first.start.toInt 1
  let endA ← first.stop.toInt 200
  let startB ← second.start.toInt 1
  let endB ← second.stop.toInt 200
  let intersection := max 0 (min endA endB - max startA startB + 1)
  let shorter := min (endA - startA + 1) (endB - startB + 1)
  return if 0 < shorter then (intersection : ℚ) / shorter else 0

def overlapsBy (threshold : ℚ) (first second : ToolArgs) : Option Bool :=
  (readOverlapRatio first second).map fun ratio => threshold ≤ ratio

/-! ## Source files -/

def sourceSuffixes : List String :=
  [".py", ".ts", ".tsx", ".js", ".jsx", ".go", ".rs", ".java", ".c", ".cc", ".cpp", ".h", ".hpp"]

/-- `Path(path).name`: the last component that is neither empty nor a dot. -/
def fileName (path : String) : List Char :=
  ((path.toList.splitOn '/').filter fun comp => comp ≠ [] ∧ comp ≠ ['.']).getLast?.getD []

/-- `PurePath.suffix`: from the last dot on, unless that dot opens or closes the name. -/
def fileSuffix (name : List Char) : String :=
  let tail := name.reverse.takeWhile (· ≠ '.')
  if tail = [] ∨ name.length ≤ tail.length + 1 then ""
  else String.ofList ('.' :: tail.reverse)

def isSourcePath (path : Option String) : Bool :=
  String.ofList ((fileSuffix (fileName (path.getD ""))).toList.map Char.toLower) ∈ sourceSuffixes

example : isSourcePath (some "src/codecub/Runtime.PY") = true := by decide

example : isSourcePath (some "src/.py") = false := by decide

end Agent
end CodeCub

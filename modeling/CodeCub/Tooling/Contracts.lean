import CodeCub.Python.Str

/-!
# Values that cross the tool-governance boundary
-/

namespace CodeCub
namespace Tooling

open Python

/-- The text of a raised Python exception. -/
abbrev Exn := String

/-- The `tool_status` strings. -/
inductive ToolStatus
  | ok
  | rejected
  | blocked
  | partialSuccess
  | error
  deriving DecidableEq, Repr

/-- The `tool_error_code` strings; `none` is the empty string. -/
inductive ErrorCode
  | none
  | unknownTool
  | cancelled
  | capabilityDenied
  | invalidArguments
  | repeatedIdenticalCall
  | approvalDenied
  | circuitOpen
  | idempotencyKeyConflict
  | sideEffectReplayBlocked
  | outcomeUncertain
  | toolBusinessFailure
  | toolFailed
  | toolPartialSuccess
  deriving DecidableEq, Repr

/-- The `security_event_type` strings; `none` is the empty string. -/
inductive SecurityEvent
  | none
  | pathEscape
  | capabilityDenied
  | readOnlyBlock
  | approvalDenied
  deriving DecidableEq, Repr

inductive RiskLevel
  | low
  | high
  deriving DecidableEq, Repr

/-- The fields of a registered tool that governance reads. -/
structure Tool where
  risky : Bool := false
  sideEffect : Bool := false
  circuitBreaker : Bool := true
  deriving DecidableEq, Repr

/-- SHA-256 of every workspace file, by relative path. -/
abbrev Snapshot := Dict String String

namespace Snapshot

/-- Paths whose digest differs between two snapshots, sorted, with one summary
line each. -/
def diff (before after : Snapshot) : List String × List String :=
  let paths := (before.keys ++ after.keys).dedup.mergeSort (fun a b => !decide (b < a))
  let changed := paths.filter (fun path => before.lookup path ≠ after.lookup path)
  (changed, changed.map fun path =>
    if path ∉ before then "created:" ++ path
    else if path ∉ after then "deleted:" ++ path
    else "modified:" ++ path)

end Snapshot

end Tooling
end CodeCub

import CodeCub.Agent.TaskPolicy
import CodeCub.Python.Find
import CodeCub.Tooling.Contracts

/-!
# The progress watchdog

`ProgressWatchdog` watches the tool events of a run.  An event brings progress when it
changes the workspace or shows something new; without progress for long enough, or in
a loop, the run is suspected to be stuck and gets a recovery turn, and a recovery that
brings no progress within its window is confirmed.  `none` stands for an exception.
-/

namespace CodeCub
namespace Agent

open Python Tooling

/-! ## Configuration and state -/

/-- The limits of the constructor, as its defaults have them.  A loop needs one event
to repeat and two to alternate between. -/
structure WatchdogConfig where
  window : Nat := 6
  noProgressWindowLimit : Nat := 6
  identicalLoopLimit : Nat := 5
  alternatingLoopLimit : Nat := 6
  verificationLoopLimit : Nat := 4
  actionErrorLoopLimit : Nat := 4
  recoveryWindow : Nat := 6
  semanticReadOverlap : ℚ := 4 / 5
  identical_pos : 0 < identicalLoopLimit := by decide
  alternating_two : 2 ≤ alternatingLoopLimit := by decide
  recovery_pos : 0 < recoveryWindow := by decide

def WatchdogConfig.maxlen (cfg : WatchdogConfig) : Nat :=
  max (max (max (max (max cfg.window cfg.identicalLoopLimit) cfg.alternatingLoopLimit)
    cfg.verificationLoopLimit) cfg.actionErrorLoopLimit) cfg.recoveryWindow + 2

inductive WatchdogState
  | normal
  | stuckSuspected
  | recovery
  | stuckConfirmed
  deriving DecidableEq, Repr

inductive ProgressKind
  | newFile
  | newSymbol
  | newEvidence
  | workspaceChange
  | newVerification
  | newTestResult
  | newError
  deriving DecidableEq, Repr

inductive StuckPattern
  | identicalLoop
  | semanticReadLoop
  | searchLoop
  | actionErrorLoop
  | alternatingLoop
  | verificationLoop
  | noProgressWindow
  deriving DecidableEq, Repr

structure ProgressSignal where
  kind : ProgressKind
  reason : String
  step : Nat
  deriving DecidableEq, Repr

/-- The fields of a call's metadata that the watchdog reads. -/
structure EventMetadata where
  toolStatus : ToolStatus := .ok
  toolErrorCode : String := ""
  workspaceChanged : Bool := false
  deriving DecidableEq, Repr

/-- One tool event as it is handed over, with what `file_hash_fn` answers meanwhile:
`none` when it raises or answers nothing. -/
structure Observation where
  name : String
  args : ToolArgs := {}
  metadata : EventMetadata := {}
  result : String := ""
  fileHash : String → Option String := fun _ => none

/-- An event as the watchdog keeps it. -/
structure WatchdogEvent where
  step : Nat
  name : String
  args : ToolArgs
  workspaceChanged : Bool
  errorSig : String
  status : ToolStatus
  searchSig : Option (String × String)
  deriving DecidableEq, Repr

/-- Two calls of one tool with the same arguments have one signature. -/
def WatchdogEvent.sig (event : WatchdogEvent) : String × String := (event.name, event.args.json)

/-- What progress is measured against. -/
structure Seen where
  files : List String := []
  symbolQueries : List (String × String) := []
  searches : List (String × String) := []
  shellCommands : List String := []
  errorSignatures : List String := []
  failedCommands : List String := []
  workspaceEpoch : Nat := 0
  fileHashes : Dict String String := ∅

structure ProgressWatchdog where
  events : List WatchdogEvent := []
  state : WatchdogState := .normal
  lastProgressStep : Nat := 0
  lastProgressReason : String := ""
  noProgressScore : Nat := 0
  stuckSuspectedCount : Nat := 0
  recoveryTurnCount : Nat := 0
  recoverySuccessCount : Nat := 0
  stuckConfirmedCount : Nat := 0
  currentPattern : Option StuckPattern := none
  recoveryStartStep : Option Nat := none
  seen : Seen := {}
  verificationLoopStreak : Nat := 0
  actionErrorStreak : Nat := 0

structure WatchdogDecision where
  state : WatchdogState
  progressSignals : List ProgressSignal := []
  stuckPattern : Option StuckPattern := none
  suspectedNow : Bool := false
  recoveredNow : Bool := false
  confirmedNow : Bool := false
  deriving DecidableEq, Repr

/-! ## Error signatures -/

def statusText : ToolStatus → String
  | .ok => "ok"
  | .rejected => "rejected"
  | .blocked => "blocked"
  | .partialSuccess => "partial_success"
  | .error => "error"

namespace Unicode

variable (u : Unicode)

/-- `exit_code:\s*(-?\d+)` at the head of the text. -/
def matchExitCode (text : List Char) : Option (List Char) :=
  if "exit_code:".toList.isPrefixOf text then
    let rest := (text.drop "exit_code:".length).dropWhile isSpace
    let sign := if rest.head? = some '-' then ['-'] else []
    let digits := (rest.drop sign.length).takeWhile u.isDecimal
    if digits = [] then none else some (sign ++ digits)
  else none

/-- The first exit code of the text, or nothing. -/
def searchExitCode : List Char → List Char
  | [] => []
  | c :: rest => (u.matchExitCode (c :: rest)).getD (searchExitCode rest)

def errorSignature (metadata : EventMetadata) (result : String) : String :=
  let code := strip metadata.toolErrorCode
  if metadata.toolStatus ∉ [.error, .rejected] ∧ code = "" then ""
  else
    statusText metadata.toolStatus ++ "|" ++ code ++ "|" ++
      String.ofList (u.searchExitCode result.toList)

def event (o : Observation) (step : Nat) : WatchdogEvent where
  step := step
  name := o.name
  args := o.args
  workspaceChanged := o.metadata.workspaceChanged
  errorSig := u.errorSignature o.metadata o.result
  status := o.metadata.toolStatus
  searchSig := if o.name = "search" then some (u.normalizeSearch o.args) else none

end Unicode

/-! ## Progress -/

namespace Seen

def rememberFileHash (seen : Seen) (hash : Option String) (path : String) : Seen :=
  match hash with
  | some current => { seen with fileHashes := seen.fileHashes.insert path current }
  | none => seen

/-- The file's digest is known and is not the one of the last read. -/
def fileChangedSinceLastRead (seen : Seen) (hash : Option String) (path : String) : Bool :=
  match seen.fileHashes.lookup path, hash with
  | some previous, some current => current ≠ previous
  | _, _ => false

end Seen

namespace WatchdogConfig

variable (cfg : WatchdogConfig) (u : Unicode)

/-- No kept read of the file at another step overlaps this one by the threshold.
`events` ends with the read itself. -/
def isFreshRead (events : List WatchdogEvent) (path : String) (args : ToolArgs) (step : Nat) :
    Option Bool :=
  let prior := events.filter fun event =>
    event.step ≠ step ∧ event.name = "read_file" ∧ u.canonicalPath event.args.path = path
  (prior.anyM fun event => overlapsBy cfg.semanticReadOverlap args event.args).map not

def readProgress (seen : Seen) (events : List WatchdogEvent) (o : Observation) (step : Nat) :
    Option (Seen × List ProgressSignal) :=
  let path := u.canonicalPath o.args.path
  if path ∉ seen.files then
    some ({ seen with files := path :: seen.files }.rememberFileHash (o.fileHash path) path,
      [⟨.newFile, "first read of " ++ path, step⟩])
  else if seen.fileChangedSinceLastRead (o.fileHash path) path then
    some (seen.rememberFileHash (o.fileHash path) path,
      [⟨.newEvidence, "re-read of " ++ path ++ " after file change", step⟩])
  else
    (cfg.isFreshRead u events path o.args step).map fun fresh =>
      (seen, if fresh then [⟨.newEvidence, "non-overlapping evidence in " ++ path, step⟩] else [])

def symbolProgress (seen : Seen) (o : Observation) (step : Nat) : Seen × List ProgressSignal :=
  let query :=
    (u.canonicalPath o.args.path, u.casefold (strip (o.args.query.getD "")))
  if query ∈ seen.symbolQueries then (seen, [])
  else ({ seen with symbolQueries := query :: seen.symbolQueries },
    [⟨.newSymbol, "symbol lookup " ++ u.repr (o.args.query.getD ""), step⟩])

def searchProgress (seen : Seen) (o : Observation) (step : Nat) : Seen × List ProgressSignal :=
  let signature := u.normalizeSearch o.args
  if signature ∈ seen.searches then (seen, [])
  else ({ seen with searches := signature :: seen.searches },
    [⟨.newEvidence, "new search over the workspace", step⟩])

/-- A command is new, or fails in a new way, or succeeds after it failed. -/
def shellProgress (seen : Seen) (o : Observation) (step : Nat) : Seen × List ProgressSignal :=
  let command := u.normalizeShellCommand o.args
  let errorSig := u.errorSignature o.metadata o.result
  let failed : Seen :=
    { seen with
      errorSignatures := errorSig :: seen.errorSignatures
      failedCommands := command :: seen.failedCommands }
  if command ∉ seen.shellCommands then
    ({ (if errorSig = "" then seen else failed) with
        shellCommands := command :: seen.shellCommands },
      [⟨.newVerification, "first verification command " ++
        u.repr (String.ofList (command.toList.take 60)), step⟩])
  else if errorSig ≠ "" then
    if errorSig ∈ seen.errorSignatures then (seen, [])
    else (failed, [⟨.newError, "new failure signature from verification", step⟩])
  else if command ∈ seen.failedCommands then
    (seen, [⟨.newTestResult, "verification command now succeeds", step⟩])
  else (seen, [])

/-- `_detect_progress`; `events` ends with the event itself. -/
def detectProgress (seen : Seen) (events : List WatchdogEvent) (o : Observation) (step : Nat) :
    Option (Seen × List ProgressSignal) :=
  if o.metadata.workspaceChanged then
    let epoch := seen.workspaceEpoch + 1
    some ({ seen with workspaceEpoch := epoch },
      [⟨.workspaceChange, "workspace modified (epoch " ++ toString epoch ++ ")", step⟩])
  else if o.metadata.toolStatus = .rejected then some (seen, [])
  else if o.name = "read_file" then cfg.readProgress u seen events o step
  else if o.name = "symbol_search" then some (symbolProgress u seen o step)
  else if o.name = "search" then some (searchProgress u seen o step)
  else if o.name = "run_shell" then some (shellProgress u seen o step)
  else some (seen, [])

/-! ## Loops -/

def detectIdenticalLoop (events : List WatchdogEvent) : Bool :=
  if events.length < cfg.identicalLoopLimit then false
  else
    match lastN cfg.identicalLoopLimit events with
    | [] => true
    | first :: rest => rest.all fun event => event.sig = first.sig

/-- Every event has the signature of its parity. -/
def alternates (first second : String × String) : List WatchdogEvent → Bool
  | [] => true
  | event :: rest => event.sig = first && alternates second first rest

def detectAlternatingLoop (events : List WatchdogEvent) : Bool :=
  if events.length < cfg.alternatingLoopLimit then false
  else
    match lastN cfg.alternatingLoopLimit events with
    | first :: second :: rest =>
        first.sig ≠ second.sig && alternates first.sig second.sig rest
    | _ => false

/-- Neighbouring reads of one file overlap by the threshold, so that a sliding range
counts as well. -/
def detectSemanticReadLoop (events : List WatchdogEvent) : Option Bool :=
  let recent := events.filter fun event => event.name = "read_file"
  if recent.length < cfg.identicalLoopLimit then some false
  else
    let last := lastN cfg.identicalLoopLimit recent
    let path := u.canonicalPath ((last.head?.map WatchdogEvent.args).getD {}).path
    if path = "" then some false
    else
      (last.zip last.tail).allM fun pair =>
        if u.canonicalPath pair.2.args.path ≠ path then some false
        else overlapsBy cfg.semanticReadOverlap pair.1.args pair.2.args

def detectSearchLoop (events : List WatchdogEvent) : Bool :=
  let recent := events.filter fun event => event.name = "search"
  if recent.length < cfg.identicalLoopLimit then false
  else ((lastN cfg.identicalLoopLimit recent).map WatchdogEvent.searchSig).dedup.length = 1

def detectStuckPattern (w : ProgressWatchdog) : Option (Option StuckPattern) :=
  if cfg.detectIdenticalLoop w.events then some (some .identicalLoop)
  else if cfg.detectAlternatingLoop w.events then some (some .alternatingLoop)
  else if cfg.verificationLoopLimit ≤ w.verificationLoopStreak then some (some .verificationLoop)
  else if cfg.actionErrorLoopLimit ≤ w.actionErrorStreak then some (some .actionErrorLoop)
  else
    (cfg.detectSemanticReadLoop u w.events).map fun reads =>
      if reads then some .semanticReadLoop
      else if cfg.detectSearchLoop w.events then some .searchLoop
      else none

end WatchdogConfig

/-! ## Recording an event -/

namespace ProgressWatchdog

def resetNoProgress (w : ProgressWatchdog) : ProgressWatchdog :=
  { w with noProgressScore := 0, verificationLoopStreak := 0, actionErrorStreak := 0 }

/-- The last signal names the progress; without one the score goes up. -/
def score (w : ProgressWatchdog) (signals : List ProgressSignal) : ProgressWatchdog :=
  match signals.getLast? with
  | some signal =>
      { w.resetNoProgress with
        lastProgressStep := signal.step
        lastProgressReason := signal.reason
        currentPattern := none }
  | none => { w with noProgressScore := w.noProgressScore + 1 }

def trackStreaks (w : ProgressWatchdog) (event : WatchdogEvent) : ProgressWatchdog :=
  if event.errorSig ≠ "" ∧ !event.workspaceChanged then
    if event.name = "run_shell" then
      { w with
        verificationLoopStreak := w.verificationLoopStreak + 1
        actionErrorStreak := 0 }
    else if isActionTool event.name then
      { w with
        actionErrorStreak := w.actionErrorStreak + 1
        verificationLoopStreak := 0 }
    else w
  else { w with verificationLoopStreak := 0, actionErrorStreak := 0 }

/-- Steps may go back: the two ends can come from different counters. -/
def recoveryElapsed (w : ProgressWatchdog) (step : Nat) : Nat :=
  match w.recoveryStartStep with
  | none => 0
  | some start => step - start

/-- The state machine, on an event that brought these signals and this pattern. -/
def settle (cfg : WatchdogConfig) (w : ProgressWatchdog) (signals : List ProgressSignal)
    (pattern : Option StuckPattern) (step : Nat) : ProgressWatchdog × WatchdogDecision :=
  let decision : WatchdogDecision := { state := w.state, progressSignals := signals }
  match w.state with
  | .normal =>
      if pattern.isSome ∨ cfg.noProgressWindowLimit ≤ w.noProgressScore then
        let found := pattern.getD .noProgressWindow
        ({ w with
            state := .stuckSuspected
            stuckSuspectedCount := w.stuckSuspectedCount + 1
            currentPattern := some found },
          { decision with
            state := .stuckSuspected
            stuckPattern := some found
            suspectedNow := true })
      else (w, decision)
  | .recovery =>
      if signals ≠ [] then
        ({ w with state := .normal, recoverySuccessCount := w.recoverySuccessCount + 1 },
          { decision with state := .normal, recoveredNow := true })
      else if cfg.recoveryWindow ≤ w.recoveryElapsed step then
        ({ w with
            state := .stuckConfirmed
            stuckConfirmedCount := w.stuckConfirmedCount + 1 },
          { decision with
            state := .stuckConfirmed
            stuckPattern := some (w.currentPattern.getD .noProgressWindow)
            confirmedNow := true })
      else (w, decision)
  | _ => (w, decision)

/-- Keep the event in the bounded queue. -/
def keep (cfg : WatchdogConfig) (w : ProgressWatchdog) (event : WatchdogEvent) : ProgressWatchdog :=
  { w with events := lastN cfg.maxlen (w.events ++ [event]) }

def recordToolEvent (cfg : WatchdogConfig) (u : Unicode) (w : ProgressWatchdog) (o : Observation)
    (step : Nat) : Option (ProgressWatchdog × WatchdogDecision) := do
  let event := u.event o step
  let w := w.keep cfg event
  let (seen, signals) ← cfg.detectProgress u w.seen w.events o step
  let w := (({ w with seen }).score signals).trackStreaks event
  let pattern ← cfg.detectStuckPattern u w
  return w.settle cfg signals pattern step

def beginRecovery (w : ProgressWatchdog) (step : Nat) : ProgressWatchdog :=
  { w with
    state := .recovery
    recoveryTurnCount := w.recoveryTurnCount + 1
    recoveryStartStep := some step
    noProgressScore := 0 }

/-- `observe_watchdog`: a suspicion starts its recovery turn at once. -/
def observe (cfg : WatchdogConfig) (u : Unicode) (w : ProgressWatchdog) (o : Observation)
    (step : Nat) : Option (ProgressWatchdog × WatchdogDecision) :=
  (w.recordToolEvent cfg u o step).map fun (w, decision) =>
    (if decision.suspectedNow then w.beginRecovery step else w, decision)

/-! ## What one event can do -/

variable {cfg : WatchdogConfig} {u : Unicode} {w w' : ProgressWatchdog} {o : Observation}
  {step : Nat} {decision : WatchdogDecision}

/-- The part of the watchdog that only the state machine writes. -/
def phase (w : ProgressWatchdog) : WatchdogState × Option Nat := (w.state, w.recoveryStartStep)

@[simp] theorem score_phase (w : ProgressWatchdog) (signals : List ProgressSignal) :
    (w.score signals).phase = w.phase := by
  unfold score
  split <;> rfl

@[simp] theorem trackStreaks_phase (w : ProgressWatchdog) (event : WatchdogEvent) :
    (w.trackStreaks event).phase = w.phase := by
  unfold trackStreaks
  split
  · split
    · rfl
    · split <;> rfl
  · rfl

theorem recoveryElapsed_of_phase (h : w'.phase = w.phase) (step : Nat) :
    w'.recoveryElapsed step = w.recoveryElapsed step := by
  have hstart : w'.recoveryStartStep = w.recoveryStartStep := congrArg Prod.snd h
  unfold recoveryElapsed
  rw [hstart]

/-- Everything before the state machine leaves it alone. -/
theorem recordToolEvent_settles (h : w.recordToolEvent cfg u o step = some (w', decision)) :
    ∃ (noted : ProgressWatchdog) (signals : List ProgressSignal) (pattern : Option StuckPattern),
      noted.phase = w.phase ∧ noted.settle cfg signals pattern step = (w', decision) := by
  unfold recordToolEvent at h
  simp only [Option.bind_eq_bind, Option.bind_eq_some_iff, Option.pure_def, Option.some.injEq] at h
  obtain ⟨⟨seen, signals⟩, -, pattern, -, hsettle⟩ := h
  refine ⟨_, signals, pattern, ?_, hsettle⟩
  rw [trackStreaks_phase, score_phase]
  rfl

theorem observe_settles (h : w.observe cfg u o step = some (w', decision)) :
    ∃ (noted recorded : ProgressWatchdog) (signals : List ProgressSignal)
      (pattern : Option StuckPattern), noted.phase = w.phase ∧
      noted.settle cfg signals pattern step = (recorded, decision) ∧
      w' = if decision.suspectedNow then recorded.beginRecovery step else recorded := by
  unfold observe at h
  rw [Option.map_eq_some_iff] at h
  obtain ⟨⟨recorded, _⟩, hrecord, hbegin⟩ := h
  obtain ⟨noted, signals, pattern, hphase, hsettle⟩ := recordToolEvent_settles hrecord
  cases hbegin
  exact ⟨noted, recorded, signals, pattern, hphase, hsettle, rfl⟩

/-- In the normal state an event changes nothing, or starts a recovery turn. -/
theorem observe_normal (hnormal : w.state = .normal)
    (h : w.observe cfg u o step = some (w', decision)) :
    (decision.suspectedNow = false ∧ w'.state = .normal) ∨
      (decision.suspectedNow = true ∧ w'.phase = (.recovery, some step)) := by
  obtain ⟨noted, recorded, signals, pattern, hphase, hsettle, rfl⟩ := observe_settles h
  have hstate : noted.state = .normal := (congrArg Prod.fst hphase).trans hnormal
  unfold settle at hsettle
  rw [hstate] at hsettle
  dsimp only at hsettle
  split at hsettle
  · cases hsettle
    exact Or.inr ⟨rfl, rfl⟩
  · cases hsettle
    exact Or.inl ⟨rfl, hstate⟩

/-- During a recovery, progress ends it; without progress it is confirmed exactly when
the step number has moved by the window. -/
theorem observe_recovery (hrecovery : w.state = .recovery)
    (h : w.observe cfg u o step = some (w', decision)) :
    decision.suspectedNow = false ∧
      ((decision.progressSignals ≠ [] ∧ w'.state = .normal) ∨
       (decision.progressSignals = [] ∧ cfg.recoveryWindow ≤ w.recoveryElapsed step ∧
        w'.state = .stuckConfirmed) ∨
       (decision.progressSignals = [] ∧ ¬ cfg.recoveryWindow ≤ w.recoveryElapsed step ∧
        w'.phase = w.phase)) := by
  obtain ⟨noted, recorded, signals, pattern, hphase, hsettle, rfl⟩ := observe_settles h
  have hstate : noted.state = .recovery := (congrArg Prod.fst hphase).trans hrecovery
  unfold settle at hsettle
  rw [hstate, recoveryElapsed_of_phase hphase] at hsettle
  dsimp only at hsettle
  split at hsettle
  · next hsignals =>
      cases hsettle
      exact ⟨rfl, Or.inl ⟨hsignals, rfl⟩⟩
  · next hsignals =>
      rw [not_not] at hsignals
      split at hsettle
      · next helapsed =>
          cases hsettle
          exact ⟨rfl, Or.inr (Or.inl ⟨hsignals, helapsed, rfl⟩)⟩
      · next helapsed =>
          cases hsettle
          exact ⟨rfl, Or.inr (Or.inr ⟨hsignals, helapsed, hphase⟩)⟩

end ProgressWatchdog

end Agent
end CodeCub

import CodeCub.Agent.TaskPolicy
import CodeCub.Tooling.Executor

/-!
# Task-local planning

`update_planning_state` runs once after every tool event and keeps the exploration,
action and verification counters of the turn.  Two of them guard the final answer: the
number of workspace changes, and that number at the last verification.
-/

namespace CodeCub
namespace Agent

open Python Tooling

inductive ActionReadiness
  | unknown
  | evidenceGathering
  | actionExpected
  | actionTaken
  deriving DecidableEq, Repr

/-- The fields of `new_planning_state` that a tool event moves. -/
structure PlanningState where
  consecutiveExploration : Nat := 0
  redundantExplorationSteps : Nat := 0
  productiveExplorationSteps : Nat := 0
  rejectedSteps : Nat := 0
  firstActionStep : Option Nat := none
  explorationStepsBeforeFirstAction : Nat := 0
  seenReads : Dict String (List ToolArgs) := ∅
  seenSearches : List (String × String) := []
  seenVerifications : List (String × Nat) := []
  workspaceChangeCount : Nat := 0
  lastVerifiedChangeCount : Nat := 0
  firstWorkspaceChangeStep : Option Nat := none
  firstExecutionStep : Option Nat := none
  firstVerificationAfterChangeStep : Option Nat := none
  verificationSteps : Nat := 0
  verificationBeforeFirstAction : Nat := 0
  productiveVerificationSteps : Nat := 0
  redundantVerificationSteps : Nat := 0
  actionReadiness : ActionReadiness := .unknown
  actionReadinessTransitions : List (ActionReadiness × Nat) := [(.unknown, 0)]

/-- What `bind_policy` hands over before the update. -/
structure PlanningPolicy where
  requiresWorkspaceChange : Bool := false
  sourceReadCount : Nat := 0
  requiresTwoSourceReads : Bool := false

namespace PlanningState

def setActionReadiness (state : PlanningState) (readiness : ActionReadiness) (toolStep : Nat) :
    PlanningState :=
  if state.actionReadiness = readiness then state
  else
    { state with
      actionReadiness := readiness
      actionReadinessTransitions := state.actionReadinessTransitions ++ [(readiness, toolStep)] }

def countRejected (state : PlanningState) : PlanningState :=
  { state with rejectedSteps := state.rejectedSteps + 1 }

/-- The first action closes the exploration that led to it. -/
def beginAction (state : PlanningState) (toolStep : Nat) : PlanningState :=
  match state.firstActionStep with
  | some _ => state
  | none =>
      { state with
        firstActionStep := some toolStep
        explorationStepsBeforeFirstAction := state.consecutiveExploration }

def countChange (state : PlanningState) (toolStep : Nat) : PlanningState :=
  { state with
    workspaceChangeCount := state.workspaceChangeCount + 1
    firstWorkspaceChangeStep := state.firstWorkspaceChangeStep.or (some toolStep)
  }.setActionReadiness .actionTaken toolStep

/-- `patch_file` and `write_file`. -/
def recordAction (state : PlanningState) (metadata : Metadata) (toolStep : Nat) : PlanningState :=
  let state :=
    { state.beginAction toolStep with
      consecutiveExploration := 0
      seenReads := ∅
      seenSearches := [] }
  let state := if metadata.workspaceChanged then state.countChange toolStep else state
  if metadata.toolStatus = .rejected then state.countRejected else state

/-- The changes made so far count as verified. -/
def markVerified (state : PlanningState) (toolStep : Nat) : PlanningState :=
  if state.lastVerifiedChangeCount < state.workspaceChangeCount then
    { state with
      firstVerificationAfterChangeStep :=
        state.firstVerificationAfterChangeStep.or (some toolStep)
      lastVerifiedChangeCount := state.workspaceChangeCount }
  else state

/-- `run_shell`, whatever became of the command unless the call was rejected.  A command
is redundant when it ran before on the same workspace. -/
def recordVerification (u : Unicode) (state : PlanningState) (args : ToolArgs) (toolStep : Nat) :
    PlanningState × Bool :=
  let signature := (u.normalizeShellCommand args, state.workspaceChangeCount)
  let redundant := signature ∈ state.seenVerifications
  let state :=
    { state with
      verificationSteps := state.verificationSteps + 1
      firstExecutionStep := state.firstExecutionStep.or (some toolStep)
      verificationBeforeFirstAction :=
        state.verificationBeforeFirstAction + (if state.firstActionStep.isNone then 1 else 0)
      seenVerifications := signature :: state.seenVerifications
      redundantVerificationSteps :=
        state.redundantVerificationSteps + (if redundant then 1 else 0)
      productiveVerificationSteps :=
        state.productiveVerificationSteps + (if redundant then 0 else 1) }
  (state.markVerified toolStep, redundant)

/-- A successful look at the code moves a turn that must change the workspace on. -/
def assessReadiness (policy : PlanningPolicy) (state : PlanningState) (name : String)
    (args : ToolArgs) (toolStep : Nat) : PlanningState :=
  if name = "read_file" ∧ isSourcePath args.path then
    if !policy.requiresTwoSourceReads ∨ 2 ≤ policy.sourceReadCount then
      state.setActionReadiness .actionExpected toolStep
    else state
  else if state.actionReadiness = .unknown then
    state.setActionReadiness .evidenceGathering toolStep
  else state

/-- Whether the exploration repeats itself, and what is remembered of it; `none` when
comparing line numbers raises. -/
def rememberExploration (u : Unicode) (state : PlanningState) (name : String) (args : ToolArgs) :
    Option (PlanningState × Bool) :=
  if name = "search" then
    let signature := u.normalizeSearch args
    some ({ state with seenSearches := signature :: state.seenSearches },
      signature ∈ state.seenSearches)
  else if name = "read_file" then
    let path := u.canonicalPath args.path
    let prior := (state.seenReads.lookup path).getD []
    (prior.anyM fun previous => overlapsBy (4 / 5) args previous).map fun redundant =>
      ({ state with seenReads := state.seenReads.insert path (prior ++ [args]) }, redundant)
  else some (state, false)

def recordExploration (u : Unicode) (policy : PlanningPolicy) (state : PlanningState)
    (name : String) (args : ToolArgs) (metadata : Metadata) (toolStep : Nat) :
    Option (PlanningState × Bool) :=
  let state := { state with consecutiveExploration := state.consecutiveExploration + 1 }
  let state :=
    if metadata.toolStatus = .ok ∧ policy.requiresWorkspaceChange ∧ state.workspaceChangeCount = 0
    then state.assessReadiness policy name args toolStep
    else state
  (state.rememberExploration u name args).map fun (state, redundant) =>
    ({ state with
        redundantExplorationSteps :=
          state.redundantExplorationSteps + (if redundant then 1 else 0)
        productiveExplorationSteps :=
          state.productiveExplorationSteps + (if redundant then 0 else 1) }, redundant)

/-- The answer tells whether the event repeats an earlier one. -/
def updatePlanningState (u : Unicode) (policy : PlanningPolicy) (state : PlanningState)
    (name : String) (args : ToolArgs) (metadata : Metadata) (toolStep : Nat) :
    Option (PlanningState × Bool) :=
  if isActionTool name then some (state.recordAction metadata toolStep, false)
  else if metadata.toolStatus = .rejected then some (state.countRejected, false)
  else if name = "run_shell" then some (state.recordVerification u args toolStep)
  else if !isExplorationTool name then some (state, false)
  else state.recordExploration u policy name args metadata toolStep

/-! ## The two counters -/

/-- The counters that guard the final answer. -/
def counters (state : PlanningState) : Nat × Nat :=
  (state.workspaceChangeCount, state.lastVerifiedChangeCount)

variable {u : Unicode} {policy : PlanningPolicy} {state state' : PlanningState} {name : String}
  {args : ToolArgs} {metadata : Metadata} {toolStep : Nat} {redundant : Bool}

@[simp] theorem setActionReadiness_counters (state : PlanningState) (readiness : ActionReadiness)
    (toolStep : Nat) : (state.setActionReadiness readiness toolStep).counters = state.counters := by
  unfold setActionReadiness
  split <;> rfl

@[simp] theorem beginAction_counters (state : PlanningState) (toolStep : Nat) :
    (state.beginAction toolStep).counters = state.counters := by
  unfold beginAction
  split <;> rfl

@[simp] theorem assessReadiness_counters (policy : PlanningPolicy) (state : PlanningState)
    (name : String) (args : ToolArgs) (toolStep : Nat) :
    (state.assessReadiness policy name args toolStep).counters = state.counters := by
  unfold assessReadiness
  split
  · split
    · exact setActionReadiness_counters ..
    · rfl
  · split
    · exact setActionReadiness_counters ..
    · rfl

theorem recordAction_counters (state : PlanningState) (metadata : Metadata) (toolStep : Nat) :
    (state.recordAction metadata toolStep).counters =
      (state.workspaceChangeCount + (if metadata.workspaceChanged then 1 else 0),
        state.lastVerifiedChangeCount) := by
  have hbegin := beginAction_counters state toolStep
  simp only [counters, Prod.mk.injEq] at hbegin
  unfold recordAction
  dsimp only
  cases metadata.workspaceChanged with
  | true =>
      have hcount := setActionReadiness_counters
      simp only [counters, Prod.mk.injEq] at hcount
      by_cases hrejected : metadata.toolStatus = .rejected
      · simp [hrejected, countRejected, countChange, counters, hcount, hbegin]
      · simp [hrejected, countChange, counters, hcount, hbegin]
  | false =>
      by_cases hrejected : metadata.toolStatus = .rejected
      · simp [hrejected, countRejected, counters, hbegin]
      · simp [hrejected, counters, hbegin]

theorem recordVerification_counters (u : Unicode) (state : PlanningState) (args : ToolArgs)
    (toolStep : Nat) :
    (state.recordVerification u args toolStep).1.counters =
      (state.workspaceChangeCount,
        max state.lastVerifiedChangeCount state.workspaceChangeCount) := by
  unfold recordVerification markVerified
  dsimp only
  split
  · next hlt => simp [counters, Nat.max_eq_right (Nat.le_of_lt hlt)]
  · next hlt => simp [counters, Nat.max_eq_left (Nat.not_lt.mp hlt)]

theorem rememberExploration_counters
    (h : state.rememberExploration u name args = some (state', redundant)) :
    state'.counters = state.counters := by
  unfold rememberExploration at h
  split at h
  · cases h
    rfl
  · split at h
    · simp only [Option.map_eq_some_iff] at h
      obtain ⟨_, -, heq⟩ := h
      cases heq
      rfl
    · cases h
      rfl

theorem recordExploration_counters
    (h : state.recordExploration u policy name args metadata toolStep = some (state', redundant)) :
    state'.counters = state.counters := by
  unfold recordExploration at h
  simp only [Option.map_eq_some_iff] at h
  obtain ⟨⟨remembered, _⟩, hremember, heq⟩ := h
  cases heq
  have hcounters := rememberExploration_counters hremember
  split at hcounters
  · rw [assessReadiness_counters] at hcounters
    exact hcounters
  · exact hcounters

/-- What an event does to the two counters. -/
theorem updatePlanningState_counters
    (h : state.updatePlanningState u policy name args metadata toolStep =
      some (state', redundant)) :
    (isActionTool name = true ∧ state'.counters =
      (state.workspaceChangeCount + (if metadata.workspaceChanged then 1 else 0),
        state.lastVerifiedChangeCount)) ∨
    (isActionTool name = false ∧ name = "run_shell" ∧ metadata.toolStatus ≠ .rejected ∧
      state'.counters = (state.workspaceChangeCount,
        max state.lastVerifiedChangeCount state.workspaceChangeCount)) ∨
    (isActionTool name = false ∧ (name ≠ "run_shell" ∨ metadata.toolStatus = .rejected) ∧
      state'.counters = state.counters) := by
  unfold updatePlanningState at h
  split at h
  · next haction =>
      cases h
      exact Or.inl ⟨haction, recordAction_counters ..⟩
  · next haction =>
      have haction : isActionTool name = false := by simpa using haction
      split at h
      · next hrejected =>
          cases h
          exact Or.inr (Or.inr ⟨haction, Or.inr hrejected, rfl⟩)
      · next hrejected =>
          split at h
          · next hshell =>
              have hverified := recordVerification_counters u state args toolStep
              rw [Option.some.inj h] at hverified
              exact Or.inr (Or.inl ⟨haction, hshell, hrejected, hverified⟩)
          · next hshell =>
              refine Or.inr (Or.inr ⟨haction, Or.inl hshell, ?_⟩)
              split at h
              · cases h
                rfl
              · exact recordExploration_counters h

end PlanningState

end Agent
end CodeCub

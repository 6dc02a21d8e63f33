import CodeCub.Evolver.Scoring
import Mathlib.Algebra.Field.Rat
import Mathlib.Algebra.Order.Ring.Rat
import Mathlib.Data.Nat.Factorial.Basic

/-!
# The gates of a candidate

`pico/evolver/orchestrator/gates`: a candidate is screened on few tasks, then confirmed
on all training tasks against a control arm.  `run_gates` judges the confirmation in
three steps: both arms must be valid measurements, only tasks on which the candidate's
mechanism fired count, and on these its mean must be above the control's.  Rates are
exact rationals, and where the source takes a square root both sides are squared.
-/

namespace CodeCub
namespace Evolver

open Python

inductive NodeStatus where
  | active
  | prunedLowScore
  | prunedInert
  | prunedAtScreen
  | prunedAtConfirm
  | rejectedAtManifest
  | blockedL1
  | promotedToBaseline
  | archivedMethodologyFailure
  | errored
  deriving DecidableEq

def NodeStatus.value : NodeStatus → Str
  | .active => "active".toList
  | .prunedLowScore => "pruned_low_score".toList
  | .prunedInert => "pruned_inert".toList
  | .prunedAtScreen => "pruned_at_screen".toList
  | .prunedAtConfirm => "pruned_at_confirm".toList
  | .rejectedAtManifest => "rejected_at_manifest".toList
  | .blockedL1 => "blocked_l1".toList
  | .promotedToBaseline => "promoted_to_baseline".toList
  | .archivedMethodologyFailure => "archived-methodology-failure".toList
  | .errored => "errored".toList

inductive EvaluationVerdict where
  | accepted
  | rejected
  | failed
  | inconclusive
  deriving DecidableEq

/-! ## Rates -/

def TaskEval.passRate (ev : TaskEval) : ℚ := if ev.attempts = 0 then 0 else ev.passes / ev.attempts

/-- `_rate`. -/
def rate (evals : Evals) (t : Str) : ℚ := ((evals.get t).map TaskEval.passRate).getD 0

def trainMean (evals : Evals) (taskIds : List Str) : ℚ :=
  if taskIds = [] then 0 else (taskIds.map (rate evals)).sum / taskIds.length

def anchorMeanPassRate {E : Type} (evals : Evals) (anchorTaskIds : List Str) :
    Except (EvolverError E) ℚ :=
  if anchorTaskIds = [] then .error .emptyAnchor
  else .ok ((anchorTaskIds.map (rate evals)).sum / anchorTaskIds.length)

/-- Passed and failed trials. -/
def focusedCounts (evals : Evals) (focusedIds : List Str) : Nat × Nat :=
  (focusedIds.filterMap evals.get).foldl
    (fun counts ev => (counts.1 + ev.passes, counts.2 + (ev.attempts - ev.passes))) (0, 0)

/-- `fisher_one_sided`, with factorials for the exponentials of `lgamma`. -/
def fisherOneSided (cp cn vp vn : Nat) : ℚ :=
  let row1 := cp + cn
  let row2 := vp + vn
  let col1 := cp + vp
  let tot := cp + cn + vp + vn
  if row1 = 0 ∨ row2 = 0 ∨ col1 = 0 ∨ col1 = tot then 1
  else
    let p (a : Nat) : ℚ :=
      if row1 < a ∨ col1 < a ∨ tot - col1 < row1 - a then 0
      else (row1.factorial * row2.factorial * col1.factorial * (tot - col1).factorial : Nat) /
        (tot.factorial * a.factorial * (row1 - a).factorial * (col1 - a).factorial *
          (tot - col1 - (row1 - a)).factorial : Nat)
    min 1 ((List.range' cp (min row1 col1 + 1 - cp)).map p).sum

/-! ## Paired lift -/

structure PairedResult where
  nTasks : Nat
  candidateMean : ℚ
  controlMean : ℚ
  meanLift : ℚ
  /-- The square of `se`. -/
  seSquared : ℚ
  zThreshold : ℚ
  promoted : Bool
  credited2sigma : Bool
  verdict : EvaluationVerdict
  candidateValidity : MeasurementValidity
  controlValidity : MeasurementValidity

/-- `z >= z_threshold` for `z = mean_lift / se`. -/
def zAtLeast (meanLift seSquared zThreshold : ℚ) : Bool :=
  if seSquared = 0 then
    if meanLift = 0 then zThreshold ≤ 0 else 0 < meanLift
  else if 0 ≤ zThreshold then 0 ≤ meanLift && zThreshold ^ 2 * seSquared ≤ meanLift ^ 2
  else 0 ≤ meanLift || meanLift ^ 2 ≤ zThreshold ^ 2 * seSquared

/-- `stdev(diffs) ** 2 / n`. -/
def standardErrorSquared (diffs : List ℚ) : ℚ :=
  if diffs.length ≤ 1 then 0
  else
    let mean := diffs.sum / diffs.length
    (diffs.map fun d => (d - mean) ^ 2).sum / (diffs.length - 1) / diffs.length

/-- The verdict that two validities force. -/
def invalidVerdict (candidate control : MeasurementValidity) : Option EvaluationVerdict :=
  if candidate.status = .failed ∨ control.status = .failed then some .failed
  else if candidate.status = .inconclusive ∨ control.status = .inconclusive then
    some .inconclusive
  else none

def pairedLift {E : Type} (candidateEvals controlEvals : Evals) (taskIds : List Str)
    (expectedAttempts : Nat) (zThreshold : ℚ) : Except (EvolverError E) PairedResult := do
  if taskIds = [] then throw .emptyTasks
  let candidateValidity ← measurementValidity candidateEvals taskIds expectedAttempts
  let controlValidity ← measurementValidity controlEvals taskIds expectedAttempts
  let diffs := taskIds.map fun t => rate candidateEvals t - rate controlEvals t
  let candidateMean := (taskIds.map (rate candidateEvals)).sum / taskIds.length
  let controlMean := (taskIds.map (rate controlEvals)).sum / taskIds.length
  let meanLift := diffs.sum / diffs.length
  let seSquared := standardErrorSquared diffs
  let verdict := (invalidVerdict candidateValidity controlValidity).getD
    (if candidateMean > controlMean then .accepted else .rejected)
  let promoted := decide (verdict = .accepted)
  return { nTasks := taskIds.length
           candidateMean, controlMean, meanLift, seSquared, zThreshold, promoted
           credited2sigma := promoted && zAtLeast meanLift seSquared zThreshold
           verdict, candidateValidity, controlValidity }

/-! ## The three shields -/

structure GateResult where
  promoted : Bool
  verdict : EvaluationVerdict
  paired : Option PairedResult
  eligibleTasks : List Str
  candidateValidity : MeasurementValidity
  controlValidity : MeasurementValidity
  infraContaminated : List Str := []
  unfiredExcluded : List Str := []

/-- `_is_infrastructure_failure`. -/
def isInfrastructureFailureAt (ev : Option TaskEval) (threshold : Nat) : Bool :=
  ev.any fun ev => ev.failure = some .infrastructure || threshold ≤ ev.infraAttempts

/-- The tasks on which the mechanism fired; `none` skips the attribution. -/
def attributed (firedTasks : Option (List Str)) (taskIds : List Str) : List Str :=
  match firedTasks with
  | none => taskIds
  | some fired => taskIds.filter (· ∈ fired)

def unfired (firedTasks : Option (List Str)) (taskIds : List Str) : List Str :=
  match firedTasks with
  | none => []
  | some fired => taskIds.filter (· ∉ fired)

def runGates {E : Type} (candidateEvals controlEvals : Evals) (taskIds : List Str)
    (expectedAttempts : Nat) (zThreshold : ℚ) (firedTasks : Option (List Str))
    (infraThreshold : Nat) : Except (EvolverError E) GateResult := do
  let infraContaminated := taskIds.filter fun t =>
    isInfrastructureFailureAt (candidateEvals.get t) infraThreshold ||
      isInfrastructureFailureAt (controlEvals.get t) infraThreshold
  let candidateValidity ← measurementValidity candidateEvals taskIds expectedAttempts
  let controlValidity ← measurementValidity controlEvals taskIds expectedAttempts
  match invalidVerdict candidateValidity controlValidity with
  | some verdict =>
      return { promoted := false, verdict, paired := none, eligibleTasks := taskIds
               candidateValidity, controlValidity, infraContaminated }
  | none =>
      let eligible := attributed firedTasks taskIds
      let unfiredExcluded := unfired firedTasks taskIds
      if eligible = [] then
        return { promoted := false, verdict := .rejected, paired := none, eligibleTasks := []
                 candidateValidity, controlValidity, infraContaminated, unfiredExcluded }
      let paired ← pairedLift candidateEvals controlEvals eligible expectedAttempts zThreshold
      return { promoted := paired.promoted, verdict := paired.verdict, paired := some paired
               eligibleTasks := eligible
               candidateValidity, controlValidity, infraContaminated, unfiredExcluded }

/-! ## The screen -/

structure AnchorSelection where
  taskIds : List Str
  sigmaScreen : ℚ
  cullThreshold : ℚ

inductive Bucket where
  | clearWin
  | withinBand
  | cull
  deriving DecidableEq

structure ScreenResult where
  candidateMean : ℚ
  vanillaMean : ℚ
  cullThreshold : ℚ
  sigmaScreen : ℚ
  passesToConfirm : Bool
  bucket : Bucket

def screenCandidate {E : Type} (candidateEvals : Evals) (anchor : AnchorSelection)
    (vanillaEvals : Evals) : Except (EvolverError E) ScreenResult := do
  let candidateMean ← anchorMeanPassRate candidateEvals anchor.taskIds
  let vanillaMean ← anchorMeanPassRate vanillaEvals anchor.taskIds
  let margin := candidateMean - vanillaMean
  let bucket : Bucket :=
    if margin ≥ anchor.cullThreshold then .clearWin
    else if margin > -anchor.cullThreshold then .withinBand
    else .cull
  return { candidateMean, vanillaMean, cullThreshold := anchor.cullThreshold
           sigmaScreen := anchor.sigmaScreen, passesToConfirm := bucket ≠ .cull, bucket }

/-! ## Decisions -/

structure CandidateOutcome where
  nodeId : Str
  status : NodeStatus
  score : ℚ := 0
  confirmEvals : Evals := ∅
  screen : Option ScreenResult := none
  paired : Option PairedResult := none
  gate : Option GateResult := none
  verdict : EvaluationVerdict

def CandidateOutcome.promoted (outcome : CandidateOutcome) : Bool :=
  outcome.status = .promotedToBaseline && outcome.verdict = .accepted

structure Baseline where
  evals : Evals
  mean : ℚ
  label : Str

/-- What a policy is given; the node is the same in every call of the scorer. -/
structure DecisionContext (E : Type) where
  nodeId : Str
  eval : EvalCall → Except E Evals
  baseline : Baseline
  trainTaskIds : List Str
  anchor : Option AnchorSelection := none
  focusedTaskIds : List Str := []
  sentinelTaskIds : List Str := []
  firedSource : Option (List Str → Except E (Option (List Str))) := none

namespace DecisionContext

variable {E : Type}

/-- A call of the scorer, with the suffix of its job. -/
def score (ctx : DecisionContext E) (taskIds : List Str) (k : Nat) (suffix : String) :
    Except (EvolverError E) Evals :=
  (ctx.eval { taskIds, k, jobName := ctx.nodeId ++ suffix.toList }).mapError .raised

/-- The full-train evaluation. -/
def confirm (ctx : DecisionContext E) (k : Nat) : Except (EvolverError E) Evals :=
  ctx.score ctx.trainTaskIds k "_confirm"

def fired (ctx : DecisionContext E) : Except (EvolverError E) (Option (List Str)) :=
  match ctx.firedSource with
  | none => .ok none
  | some source => (source ctx.trainTaskIds).mapError .raised

end DecisionContext

/-- `_measurement_verdict`. -/
def measurementVerdict {E : Type} (candidate control : Evals) (taskIds : List Str)
    (expectedAttempts : Nat) : Except (EvolverError E) (Option EvaluationVerdict) := do
  let candidateValidity ← measurementValidity candidate taskIds expectedAttempts
  let controlValidity ← measurementValidity control taskIds expectedAttempts
  return invalidVerdict candidateValidity controlValidity

/-- The outcome of a screen on invalid evidence. -/
def invalidOutcome (nodeId : Str) (verdict : EvaluationVerdict) : CandidateOutcome where
  nodeId := nodeId
  status := if verdict = .failed then .errored else .prunedAtScreen
  verdict := verdict

/-- The outcome of a confirmation that went through the shields. -/
def confirmedOutcome (nodeId : Str) (score : ℚ) (confirmEvals : Evals)
    (screen : Option ScreenResult) (gate : GateResult) (promoted : Bool) : CandidateOutcome where
  nodeId := nodeId
  status :=
    if gate.verdict = .failed then .errored
    else if promoted then .promotedToBaseline
    else .prunedAtConfirm
  score := score
  confirmEvals := confirmEvals
  screen := screen
  paired := gate.paired
  gate := some gate
  verdict :=
    if promoted then .accepted
    else if gate.verdict = .accepted then .rejected
    else gate.verdict

structure PairedTwoSigmaGate where
  kScreen : Nat := 1
  kConfirm : Nat := 3
  zThreshold : ℚ := 2

def PairedTwoSigmaGate.decide {E : Type} (policy : PairedTwoSigmaGate) (ctx : DecisionContext E) :
    Except (EvolverError E) CandidateOutcome := do
  match ctx.anchor with
  | none => throw .missingAnchor
  | some anchor =>
      let screenEvals ← ctx.score anchor.taskIds policy.kScreen "_screen"
      match ← measurementVerdict screenEvals ctx.baseline.evals anchor.taskIds policy.kScreen with
      | some verdict => return invalidOutcome ctx.nodeId verdict
      | none =>
          let screen ← screenCandidate screenEvals anchor ctx.baseline.evals
          if !screen.passesToConfirm then
            return { nodeId := ctx.nodeId, status := .prunedAtScreen, screen := some screen
                     verdict := .rejected }
          let confirm ← ctx.confirm policy.kConfirm
          let fired ← ctx.fired
          let gate ← runGates confirm ctx.baseline.evals ctx.trainTaskIds policy.kConfirm
            policy.zThreshold fired 1
          let fullMean := trainMean confirm ctx.trainTaskIds
          let controlFullMean := trainMean ctx.baseline.evals ctx.trainTaskIds
          return confirmedOutcome ctx.nodeId fullMean confirm (some screen) gate
            (gate.promoted && fullMean ≥ controlFullMean)

structure FocusedFisherGate where
  k : Nat := 3
  alpha : ℚ := 1 / 20
  minConfirmLift : ℚ := 0
  zThreshold : ℚ := 2

namespace FocusedFisherGate

variable {E : Type}

/-- `list(dict.fromkeys(focused + sentinels))`. -/
def probeIds (ctx : DecisionContext E) : List Str :=
  (ctx.focusedTaskIds ++ ctx.sentinelTaskIds).foldl
    (fun ids t => if t ∈ ids then ids else ids ++ [t]) []

/-- The local `_bmean`, the rate over the trials that the infrastructure did not spoil. -/
def baselineMean (base : Evals) (t : Str) : Option ℚ :=
  match base.get t with
  | none => none
  | some ev =>
      if ev.attempts - ev.infraAttempts = 0 then none
      else some (ev.passes / (ev.attempts - ev.infraAttempts : Nat))

/-- `p / (p + n)`, and 0 without a trial. -/
def trialRate (counts : Nat × Nat) : ℚ :=
  if counts.1 + counts.2 = 0 then 0 else counts.1 / (counts.1 + counts.2 : Nat)

/-- Both counts say that the candidate is worse, significantly. -/
def significantlyWorse (policy : FocusedFisherGate) (candidate control : Nat × Nat) : Bool :=
  trialRate candidate < trialRate control &&
    fisherOneSided control.1 control.2 candidate.1 candidate.2 < policy.alpha

/-- The regression check on the sentinels. -/
def sentinelRegression (policy : FocusedFisherGate) (probe base : Evals) (sentinels : List Str) :
    Bool :=
  let stable := sentinels.filter fun t => baselineMean base t = some 1
  let fragile := sentinels.filter fun t => t ∉ stable && (baselineMean base t).any (· ≠ 0)
  (stable ≠ [] &&
      trainMean probe stable < trainMean base stable - 3 / 2 / (stable.length * policy.k)) ||
    (fragile ≠ [] &&
      policy.significantlyWorse (focusedCounts probe fragile) (focusedCounts base fragile))

/-- The evaluation of the focused tasks and the sentinels. -/
def probe (policy : FocusedFisherGate) (ctx : DecisionContext E) : Except (EvolverError E) Evals :=
  if probeIds ctx = [] then .ok ∅ else ctx.score (probeIds ctx) policy.k "_focused"

def decide (policy : FocusedFisherGate) (ctx : DecisionContext E) :
    Except (EvolverError E) CandidateOutcome := do
  let probe ← policy.probe ctx
  match ← measurementVerdict probe ctx.baseline.evals (probeIds ctx) policy.k with
  | some verdict => return invalidOutcome ctx.nodeId verdict
  | none =>
      if policy.sentinelRegression probe ctx.baseline.evals ctx.sentinelTaskIds then
        return { nodeId := ctx.nodeId, status := .prunedAtScreen, verdict := .rejected }
      if ctx.focusedTaskIds ≠ [] ∧
          policy.significantlyWorse (focusedCounts probe ctx.focusedTaskIds)
            (focusedCounts ctx.baseline.evals ctx.focusedTaskIds) then
        return { nodeId := ctx.nodeId, status := .prunedAtScreen, verdict := .rejected }
      let confirm ← ctx.confirm policy.k
      let fired ← ctx.fired
      let gate ← runGates confirm ctx.baseline.evals ctx.trainTaskIds policy.k policy.zThreshold
        fired 1
      let candMean := trainMean confirm ctx.trainTaskIds
      let lift := candMean - ctx.baseline.mean
      return confirmedOutcome ctx.nodeId candMean confirm none gate
        (gate.promoted && lift ≥ policy.minConfirmLift)

end FocusedFisherGate

end Evolver
end CodeCub

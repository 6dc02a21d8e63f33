import CodeCub.Python.Json
import CodeCub.Python.OrderedDict
import Mathlib.Data.List.Forall2

/-!
# Measurements and their reruns

`pico/evolver/orchestrator/scoring.py`: a scorer returns one measurement for each task,
and `eval_with_infra_rerun` has the tasks scored again whose measurement was spoilt by
the infrastructure.  Each measurement that is kept is kept with the call that returned
it; the code does not look at that.
-/

namespace CodeCub
namespace Evolver

open Python

inductive MeasurementFailure where
  | provider
  | infrastructure
  | inconclusive
  deriving DecidableEq

inductive MeasurementStatus where
  | measured
  | failed
  | inconclusive
  deriving DecidableEq

/-- The counts of a measurement, checked as `__post_init__` does. -/
structure TaskEval where
  taskId : Str
  passes : Nat
  attempts : Nat
  infraAttempts : Nat := 0
  failure : Option MeasurementFailure := none
  passes_le : passes ≤ attempts
  infraAttempts_le : infraAttempts ≤ attempts

/-- One pass in two attempts. -/
def halfPassed (taskId : Str) : TaskEval where
  taskId := taskId
  passes := 1
  attempts := 2
  passes_le := by decide
  infraAttempts_le := by decide

abbrev Evals := OrderedDict Str TaskEval

/-- What the scoring and the gates raise; `raised` is an error of an injected function. -/
inductive EvolverError (E : Type) where
  /-- `expected_attempts must be >= 1`. -/
  | expectedAttempts
  /-- `anchor_mean_pass_rate requires a non-empty anchor list`. -/
  | emptyAnchor
  /-- `paired_lift requires a non-empty task list`. -/
  | emptyTasks
  /-- `PairedTwoSigmaGate requires an anchor in the context`. -/
  | missingAnchor
  | raised (error : E)

structure MeasurementValidity where
  status : MeasurementStatus
  missing : List Str := []
  providerFailures : List Str := []
  infrastructureFailures : List Str := []
  inconclusive : List Str := []

def MeasurementValidity.valid (validity : MeasurementValidity) : Bool :=
  validity.status = .measured

namespace TaskEval

def isProviderFailure (ev : TaskEval) : Bool := ev.failure = some .provider

def isInfrastructureFailure (ev : TaskEval) : Bool :=
  ev.failure = some .infrastructure || 0 < ev.infraAttempts

def isInconclusive (ev : TaskEval) (expectedAttempts : Nat) : Bool :=
  ev.failure = some .inconclusive || ev.attempts < expectedAttempts

/-- At least `k` attempts, no infrastructure trial and no failure mark. -/
def Measured (ev : TaskEval) (k : Nat) : Prop :=
  k ≤ ev.attempts ∧ ev.infraAttempts = 0 ∧ ev.failure = none

/-- Measured with exactly `k` attempts. -/
def Clean (ev : TaskEval) (k : Nat) : Prop :=
  ev.attempts = k ∧ ev.infraAttempts = 0 ∧ ev.failure = none

instance (ev : TaskEval) (k : Nat) : Decidable (ev.Clean k) := inferInstanceAs (Decidable (_ ∧ _))

theorem Clean.measured {ev : TaskEval} {k : Nat} (h : ev.Clean k) : ev.Measured k :=
  ⟨h.1.ge, h.2⟩

theorem measured_iff (ev : TaskEval) (k : Nat) :
    ev.Measured k ↔ ev.isProviderFailure = false ∧ ev.isInfrastructureFailure = false ∧
      ev.isInconclusive k = false := by
  rw [Measured, isProviderFailure, isInfrastructureFailure, isInconclusive]
  cases ev.failure with
  | none => simp [and_comm]
  | some failure => cases failure <;> simp

/-- The same measurement up to the number of passes. -/
structure Alike (a b : TaskEval) : Prop where
  taskId : a.taskId = b.taskId
  attempts : a.attempts = b.attempts
  infraAttempts : a.infraAttempts = b.infraAttempts
  failure : a.failure = b.failure

end TaskEval

/-! ## Validity -/

/-- The tasks of `task_ids` whose measurement has the property. -/
def tasksWhere (evals : Evals) (taskIds : List Str) (p : TaskEval → Bool) : List Str :=
  taskIds.filter fun t => (evals.get t).any p

def measurementValidity {E : Type} (evals : Evals) (taskIds : List Str) (expectedAttempts : Nat) :
    Except (EvolverError E) MeasurementValidity :=
  if expectedAttempts < 1 then .error .expectedAttempts
  else
    let missing := taskIds.filter fun t => (evals.get t).isNone
    let providerFailures := tasksWhere evals taskIds TaskEval.isProviderFailure
    let infrastructureFailures := tasksWhere evals taskIds TaskEval.isInfrastructureFailure
    let inconclusive := tasksWhere evals taskIds fun ev => ev.isInconclusive expectedAttempts
    .ok
      { status :=
          if providerFailures ≠ [] ∨ infrastructureFailures ≠ [] then .failed
          else if missing ≠ [] ∨ inconclusive ≠ [] then .inconclusive
          else .measured
        missing, providerFailures, infrastructureFailures, inconclusive }

/-- Every task has a measurement of at least `k` attempts without a failure. -/
def Evals.Measured (evals : Evals) (taskIds : List Str) (k : Nat) : Prop :=
  ∀ t ∈ taskIds, ∃ ev, evals.get t = some ev ∧ ev.Measured k

theorem tasksWhere_eq_nil {evals : Evals} {taskIds : List Str} {p : TaskEval → Bool} :
    tasksWhere evals taskIds p = [] ↔
      ∀ t ∈ taskIds, ∀ ev, evals.get t = some ev → p ev = false := by
  rw [tasksWhere, List.filter_eq_nil_iff]
  refine forall₂_congr fun t _ => ?_
  cases evals.get t with
  | none => simp
  | some ev => simp

/-- A measurement is valid when every task is measured. -/
theorem measurementValidity_valid {E : Type} {evals : Evals} {taskIds : List Str} {k : Nat}
    (hk : 1 ≤ k) {validity : MeasurementValidity}
    (h : (measurementValidity evals taskIds k : Except (EvolverError E) _) = .ok validity) :
    validity.status = .measured ↔ evals.Measured taskIds k := by
  rw [measurementValidity, if_neg (by omega)] at h
  cases h
  have hstatus : ∀ a b c d : Prop, [Decidable a] → [Decidable b] → [Decidable c] → [Decidable d] →
      ((if ¬ a ∨ ¬ b then MeasurementStatus.failed
        else if ¬ c ∨ ¬ d then .inconclusive else .measured) = .measured ↔ (a ∧ b) ∧ c ∧ d) := by
    intro a b c d _ _ _ _
    split
    · next h => simp; tauto
    · next h =>
        split
        · next h' => simp; tauto
        · next h' => simp; tauto
  refine (hstatus _ _ _ _).trans ?_
  rw [tasksWhere_eq_nil, tasksWhere_eq_nil, tasksWhere_eq_nil, List.filter_eq_nil_iff]
  constructor
  · rintro ⟨⟨hprovider, hinfra⟩, hmissing, hinconclusive⟩ t ht
    cases hget : evals.get t with
    | none => exact absurd (by rw [hget]; rfl) (hmissing t ht)
    | some ev => exact ⟨ev, rfl, (ev.measured_iff k).mpr
        ⟨hprovider t ht ev hget, hinfra t ht ev hget, hinconclusive t ht ev hget⟩⟩
  · intro hall
    have hev : ∀ t ∈ taskIds, ∀ ev, evals.get t = some ev → ev.Measured k := by
      intro t ht ev hget
      obtain ⟨ev', hget', hmeasured⟩ := hall t ht
      rw [hget] at hget'
      cases hget'
      exact hmeasured
    refine ⟨⟨?_, ?_⟩, ?_, ?_⟩
    · exact fun t ht ev hget => ((ev.measured_iff k).mp (hev t ht ev hget)).1
    · exact fun t ht ev hget => ((ev.measured_iff k).mp (hev t ht ev hget)).2.1
    · intro t ht
      obtain ⟨ev, hget, _⟩ := hall t ht
      simp [hget]
    · exact fun t ht ev hget => ((ev.measured_iff k).mp (hev t ht ev hget)).2.2

/-! ## Which measurement wins -/

/-- The local `exact_valid` of `prefer_rerun_measurement`. -/
def exactValid {E : Type} (value : TaskEval) (expectedAttempts : Nat) :
    Except (EvolverError E) Bool :=
  if value.attempts = expectedAttempts then
    (measurementValidity ((∅ : Evals).set value.taskId value) [value.taskId] expectedAttempts).map
      MeasurementValidity.valid
  else .ok false

def preferRerunMeasurement {E : Type} (current candidate : Option TaskEval)
    (expectedAttempts : Nat) : Except (EvolverError E) Bool := do
  match candidate, current with
  | none, _ => return false
  | some _, none => return true
  | some candidate, some current =>
      let candidateValid ← exactValid candidate expectedAttempts
      let currentValid ← exactValid current expectedAttempts
      if candidateValid && !currentValid then return true
      return candidate.isInfrastructureFailure && current.isInfrastructureFailure &&
        candidate.infraAttempts < current.infraAttempts

theorem exactValid_eq {E : Type} {k : Nat} (hk : 1 ≤ k) (value : TaskEval) :
    (exactValid value k : Except (EvolverError E) Bool) = .ok (decide (value.Clean k)) := by
  rw [exactValid]
  split
  · next hattempts =>
      cases hvalidity : (measurementValidity ((∅ : Evals).set value.taskId value) [value.taskId] k :
          Except (EvolverError E) _) with
      | error error =>
          rw [measurementValidity, if_neg (by omega)] at hvalidity
          cases hvalidity
      | ok validity =>
          have hvalid := measurementValidity_valid hk hvalidity
          have hclean : Evals.Measured ((∅ : Evals).set value.taskId value) [value.taskId] k ↔
              value.Clean k := by
            simp [Evals.Measured, TaskEval.Measured, TaskEval.Clean, hattempts]
          rw [Except.map, MeasurementValidity.valid, decide_eq_decide.mpr (hvalid.trans hclean)]
  · next hattempts => simp [TaskEval.Clean, hattempts]

/-- Whether the second measurement replaces the first. -/
def wins (k : Nat) (current candidate : TaskEval) : Bool :=
  (decide (candidate.Clean k) && !decide (current.Clean k)) ||
    (candidate.isInfrastructureFailure && current.isInfrastructureFailure &&
      candidate.infraAttempts < current.infraAttempts)

theorem preferRerunMeasurement_some {E : Type} {k : Nat} (hk : 1 ≤ k)
    (current candidate : TaskEval) :
    (preferRerunMeasurement (some current) (some candidate) k : Except (EvolverError E) Bool) =
      .ok (wins k current candidate) := by
  rw [preferRerunMeasurement, exactValid_eq hk, exactValid_eq hk]
  simp only [bind, Except.bind, pure, Except.pure, wins]
  cases hwin : (decide (candidate.Clean k) && !decide (current.Clean k)) with
  | true => simp
  | false => simp

/-! ## The rerun ladder -/

/-- One call of the scorer; the node and the split are the same in all of them. -/
structure EvalCall where
  taskIds : List Str
  k : Nat
  jobName : Str
  deriving DecidableEq

/-- A scorer, which may remember the calls before. -/
abbrev Scorer (E : Type) := List EvalCall → EvalCall → Except E Evals

/-- A measurement with the number of the call that returned it. -/
structure Kept where
  eval : TaskEval
  call : Nat

abbrev KeptEvals := OrderedDict Str Kept

/-- The tasks that are scored again. -/
def needsRerun (k : Nat) : Option TaskEval → Bool
  | none => true
  | some ev =>
      0 < ev.infraAttempts || ev.failure = some .infrastructure ||
        ev.failure = some .inconclusive || (ev.failure ≠ some .provider && ev.attempts < k)

def infraTasks (evals : KeptEvals) (taskIds : List Str) (k : Nat) : List Str :=
  taskIds.filter fun t => needsRerun k ((evals.get t).map Kept.eval)

/-- The measurements of one call. -/
def keepAll (call : Nat) (answer : Evals) : KeptEvals where
  entries := answer.entries.map fun entry => (entry.1, { eval := entry.2, call })
  nodup := by
    rw [List.map_map]
    exact answer.nodup

/-- The loop over the tasks of a rerun. -/
def keepBetter {E : Type} (k call : Nat) (redo : Evals) :
    List Str → KeptEvals → Except (EvolverError E) KeptEvals
  | [], evals => .ok evals
  | t :: rest, evals => do
      let better ← preferRerunMeasurement ((evals.get t).map Kept.eval) (redo.get t) k
      match better, redo.get t with
      | true, some eval => keepBetter k call redo rest (evals.set t { eval, call })
      | _, _ => keepBetter k call redo rest evals

/-- The calls of the scorer with their answers, and what the function returns. -/
structure Ladder (E : Type) where
  calls : List (EvalCall × Except E Evals)
  result : Except (EvolverError E) KeptEvals

def rerunJobName (jobName : Str) (i : Nat) : Str :=
  jobName ++ "_infra_rerun".toList ++ Nat.toDigits 10 i

def rerunCall (evals : KeptEvals) (taskIds : List Str) (k : Nat) (jobName : Str) (i : Nat) :
    EvalCall :=
  { taskIds := infraTasks evals taskIds k, k, jobName := rerunJobName jobName i }

/-- The iterations `i`, `i + 1`, … of the loop, `n` of them. -/
def rerunFrom {E : Type} (evalFn : Scorer E) (taskIds : List Str) (k : Nat) (jobName : Str) :
    Nat → Nat → List (EvalCall × Except E Evals) → KeptEvals → Ladder E
  | 0, _, calls, evals => { calls, result := .ok evals }
  | n + 1, i, calls, evals =>
      if infraTasks evals taskIds k = [] then { calls, result := .ok evals }
      else
        let call := rerunCall evals taskIds k jobName i
        let answer := evalFn (calls.map Prod.fst) call
        match answer with
        | .error error => { calls := calls ++ [(call, answer)], result := .error (.raised error) }
        | .ok redo =>
            match keepBetter k calls.length redo call.taskIds evals with
            | .error error => { calls := calls ++ [(call, answer)], result := .error error }
            | .ok evals => rerunFrom evalFn taskIds k jobName n (i + 1) (calls ++ [(call, answer)]) evals

def evalWithInfraRerun {E : Type} (evalFn : Scorer E) (taskIds : List Str) (k : Nat)
    (jobName : Str) (maxReruns : Int) : Ladder E :=
  let call : EvalCall := { taskIds, k, jobName }
  let answer := evalFn [] call
  match answer with
  | .error error => { calls := [(call, answer)], result := .error (.raised error) }
  | .ok evals => rerunFrom evalFn taskIds k jobName maxReruns.toNat 1 [(call, answer)] (keepAll 0 evals)

end Evolver
end CodeCub

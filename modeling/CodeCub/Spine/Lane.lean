import CodeCub.Machine.Run
import CodeCub.Tooling.Contracts

/-!
# Conversation lanes

One lane serialises the turns of a conversation.  Python objects that the lane
shares with its completion threads are kept by identity: a run and its cancellation
source by their position in `runs`, a future by its position in `outcomes`.  A
completion thread is a `Waiter`; it first settles the future outside the lane's
lock (`resolve`) and then takes the lock to free the lane (`release`).  Every fresh
run id is an argument of the step that may need one.
-/

namespace CodeCub
namespace Spine

open Tooling (Exn)

inductive RunStatus
  | queued
  | running
  | cancelRequested
  | cancelling
  | cancelled
  | completed
  | failed
  deriving DecidableEq, Repr

namespace RunStatus

def value : RunStatus → String
  | queued => "QUEUED"
  | running => "RUNNING"
  | cancelRequested => "CANCEL_REQUESTED"
  | cancelling => "CANCELLING"
  | cancelled => "CANCELLED"
  | completed => "COMPLETED"
  | failed => "FAILED"

def terminal : RunStatus → Bool
  | cancelled => true
  | completed => true
  | failed => true
  | _ => false

/-- The table of `Run.transition_to`. -/
def allowed : RunStatus → List RunStatus
  | queued => [running, cancelled]
  | running => [cancelRequested, completed, failed]
  | cancelRequested => [cancelling]
  | cancelling => [cancelled, failed]
  | _ => []

end RunStatus

structure TurnRequest where
  message : String
  sessionId : String
  conversationId : String
  turnId : String
  traceId : String
  /-- `runtime_extensions["run_id"]`. -/
  runId : Option String := none
  deriving DecidableEq, Repr

structure TurnOutcome where
  turnId : String
  runId : String
  status : RunStatus
  answer : String := ""
  error : String := ""
  deriving DecidableEq, Repr

structure Run where
  runId : String
  turnId : String
  conversationId : String
  sessionId : String
  traceId : String
  status : RunStatus := .queued
  deriving DecidableEq, Repr

def Run.transitionTo (run : Run) (status : RunStatus) : Except Exn Run :=
  if run.status.terminal then .error "terminal runs cannot transition"
  else if status ∈ run.status.allowed then .ok { run with status }
  else .error ("invalid run transition: " ++ run.status.value ++ " -> " ++ status.value)

structure InjectionMailbox where
  items : List TurnRequest := []
  submitted : Nat := 0
  drained : Nat := 0
  fallbackAppended : Nat := 0
  deriving DecidableEq, Repr

namespace InjectionMailbox

def put (mailbox : InjectionMailbox) (request : TurnRequest) : InjectionMailbox :=
  { mailbox with items := mailbox.items ++ [request], submitted := mailbox.submitted + 1 }

def drain (mailbox : InjectionMailbox) : List TurnRequest × InjectionMailbox :=
  (mailbox.items,
    { mailbox with items := [], drained := mailbox.drained + mailbox.items.length })

def drainForFallback (mailbox : InjectionMailbox) : List TurnRequest × InjectionMailbox :=
  (mailbox.items,
    { mailbox with
        items := [], fallbackAppended := mailbox.fallbackAppended + mailbox.items.length })

end InjectionMailbox

/-- A run that was started, with its request, its cancellation source and the
future that its completion thread will settle. -/
structure Dispatched where
  request : TurnRequest
  run : Run
  cancelled : Bool := false
  outcome : Nat
  deriving DecidableEq, Repr

/-- A completion thread of the run at position `run`. -/
structure Waiter where
  run : Nat
  resolved : Bool := false
  deriving DecidableEq, Repr

structure Lane where
  durable : Bool
  active : Option Nat := none
  pending : List (TurnRequest × Nat) := []
  injections : InjectionMailbox := {}
  runs : List Dispatched := []
  waiters : List Waiter := []
  outcomes : List (Option TurnOutcome) := []
  deriving DecidableEq, Repr

inductive Response
  | future (id : Nat)
  | flag (value : Bool)
  | requests (items : List TurnRequest)
  | unit
  deriving DecidableEq, Repr

namespace Lane

variable (lane : Lane)

def activeRun : Option Dispatched := lane.active.bind fun i => lane.runs[i]?

/-- `Spine._dispatch`: the embedded broker runs a turn at once, the durable one
leaves it queued. -/
def dispatch (run : Run) : Except Exn Run :=
  if lane.durable then .ok run else run.transitionTo .running

def runIdFor (request : TurnRequest) (newRunId : String) : String :=
  match request.runId with
  | some runId => if runId = "" then newRunId else runId
  | none => newRunId

/-- `_start_next_locked`. -/
def startNext (newRunId : String) : Except Exn Lane :=
  match lane.active, lane.pending with
  | none, (request, outcome) :: pending => do
      let run ← lane.dispatch
        { runId := runIdFor request newRunId, turnId := request.turnId
          conversationId := request.conversationId, sessionId := request.sessionId
          traceId := request.traceId }
      return { lane with
        active := some lane.runs.length
        pending := pending
        runs := lane.runs ++ [{ request, run, outcome }]
        waiters := lane.waiters ++ [{ run := lane.runs.length }] }
  | _, _ => return lane

/-- A step that returns keeps its new state; one that raises in `startNext` keeps
the state it was called in. -/
def andStart (result : Response) (newRunId : String) (lane' : Lane) :
    Lane × Except Exn Response :=
  match lane'.startNext newRunId with
  | .ok lane'' => (lane'', .ok result)
  | .error exn => (lane, .error exn)

def submit (request : TurnRequest) (front : Bool) (newRunId : String) :
    Lane × Except Exn Response :=
  let outcome := lane.outcomes.length
  lane.andStart (.future outcome) newRunId
    { lane with
      pending := if front then (request, outcome) :: lane.pending
        else lane.pending ++ [(request, outcome)]
      outcomes := lane.outcomes ++ [none] }

/-- The pair of transitions that an interrupt and a cancellation share. -/
def requestCancel (dispatched : Dispatched) : Except Exn Dispatched := do
  let run ← dispatched.run.transitionTo .cancelRequested
  let run ← run.transitionTo .cancelling
  return { dispatched with run, cancelled := true }

def interruptAndSubmit (request : TurnRequest) (newRunId : String) :
    Lane × Except Exn Response :=
  match lane.active, lane.activeRun with
  | some i, some dispatched =>
      if dispatched.run.status.terminal then lane.submit request true newRunId
      else
        match requestCancel dispatched with
        | .error exn => (lane, .error exn)
        | .ok dispatched =>
            submit { lane with runs := lane.runs.set i dispatched } request true newRunId
  | _, _ => lane.submit request true newRunId

def inject (request : TurnRequest) : Lane × Except Exn Response :=
  match lane.active with
  | none => (lane, .ok (.flag false))
  | some _ => ({ lane with injections := lane.injections.put request }, .ok (.flag true))

def drainInjections : Lane × Except Exn Response :=
  let (items, injections) := lane.injections.drain
  ({ lane with injections }, .ok (.requests items))

def cancelRun (runId : String) : Lane × Except Exn Response :=
  match lane.active, lane.activeRun with
  | some i, some dispatched =>
      if dispatched.run.runId ≠ runId then (lane, .ok (.flag false))
      else if dispatched.run.status.terminal then (lane, .ok (.flag false))
      else if dispatched.run.status = .running then
        match requestCancel dispatched with
        | .error exn => (lane, .error exn)
        | .ok dispatched =>
            ({ lane with runs := lane.runs.set i dispatched }, .ok (.flag true))
      else
        ({ lane with runs := lane.runs.set i { dispatched with cancelled := true } },
          .ok (.flag true))
  | _, _ => (lane, .ok (.flag false))

/-- The outcome a completion thread settles with. -/
def finalOutcome (dispatched : Dispatched) (result : Except Exn TurnOutcome) : TurnOutcome :=
  let run := dispatched.run
  let outcome := match result with
    | .ok outcome => outcome
    | .error exn => { turnId := run.turnId, runId := run.runId, status := .failed, error := exn }
  if dispatched.cancelled then
    { turnId := run.turnId, runId := run.runId, status := .cancelled
      answer := outcome.answer, error := outcome.error }
  else outcome

/-- The unlocked half of `_finish`.  A thread that raises here is gone, and leaves
the run active. -/
def resolve (i : Nat) (result : Except Exn TurnOutcome) : Lane × Except Exn Response :=
  match lane.waiters[i]? with
  | none => (lane, .ok .unit)
  | some waiter =>
  if waiter.resolved then (lane, .ok .unit)
  else
    match lane.runs[waiter.run]? with
    | none => (lane, .ok .unit)
    | some dispatched =>
        let outcome := finalOutcome dispatched result
        match (if outcome.status = .queued then .ok dispatched.run
          else dispatched.run.transitionTo outcome.status) with
        | .error exn => ({ lane with waiters := lane.waiters.eraseIdx i }, .error exn)
        | .ok run =>
            let runs := lane.runs.set waiter.run { dispatched with run }
            if lane.outcomes[dispatched.outcome]? = some none then
              ({ lane with
                  runs
                  outcomes := lane.outcomes.set dispatched.outcome (some outcome)
                  waiters := lane.waiters.set i { waiter with resolved := true } },
                .ok .unit)
            else
              ({ lane with runs, waiters := lane.waiters.eraseIdx i },
                .error "InvalidStateError")

/-- The futures given to requests that fall back. -/
def fallbackEntries (items : List TurnRequest) : List (TurnRequest × Nat) :=
  items.zip (List.range' lane.outcomes.length items.length)

/-- The locked half of `_finish`. -/
def release (i : Nat) (newRunId : String) : Lane × Except Exn Response :=
  match lane.waiters[i]? with
  | none => (lane, .ok .unit)
  | some waiter =>
  if !waiter.resolved then (lane, .ok .unit)
  else
    let sameRun := lane.activeRun.map (fun d => d.run.runId) =
      lane.runs[waiter.run]?.map fun d => d.run.runId
    let (items, injections) := lane.injections.drainForFallback
    lane.andStart (.requests items) newRunId
      { lane with
        active := if lane.active.isSome ∧ sameRun then none else lane.active
        pending := lane.pending ++ lane.fallbackEntries items
        injections
        waiters := lane.waiters.eraseIdx i
        outcomes := lane.outcomes ++ List.replicate items.length none }

/-- `_finish` as one atomic step. -/
def complete (i : Nat) (result : Except Exn TurnOutcome) (newRunId : String) :
    Lane × Except Exn Response :=
  match lane.resolve i result with
  | (lane, .error exn) => (lane, .error exn)
  | (lane, .ok _) => lane.release i newRunId

end Lane

/-- The steps of a lane when a completion is atomic. -/
inductive LaneStep
  | submit (request : TurnRequest) (front : Bool) (newRunId : String)
  | interruptAndSubmit (request : TurnRequest) (newRunId : String)
  | inject (request : TurnRequest)
  | drainInjections
  | cancelRun (runId : String)
  | complete (i : Nat) (result : Except Exn TurnOutcome) (newRunId : String)

namespace Lane

def step (lane : Lane) : LaneStep → Lane × Except Exn Response
  | .submit request front newRunId => lane.submit request front newRunId
  | .interruptAndSubmit request newRunId => lane.interruptAndSubmit request newRunId
  | .inject request => lane.inject request
  | .drainInjections => lane.drainInjections
  | .cancelRun runId => lane.cancelRun runId
  | .complete i result newRunId => lane.complete i result newRunId

def machine : Machine Lane LaneStep (Except Exn Response) where
  step := step

end Lane
end Spine
end CodeCub

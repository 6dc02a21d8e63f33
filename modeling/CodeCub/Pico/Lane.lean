import CodeCub.Machine.Run

/-!
# Conversation lanes on one event loop

A lane of the asyncio scheduler.  Its worker takes one turn at a time off the queue and
awaits the turn's task; the task acquires a slot, announces the turn, runs the runner and
announces the end.  Everything between two awaits is one step.  Futures are the numbers in
which `submit` created them, and `resolved` is the record of their results.

A request to cancel a task waits in `mustCancel` until it is thrown into the code that the
task is awaiting.  What that code, the runner or the event sink, makes of it is not the
lane's business: a runner or a sink may end in each of its ways at any time.  A request
that is left when the coroutine returns cancels the task all the same.
-/

namespace CodeCub
namespace Pico

inductive Origin where
  | user
  | cron
  | subagent
  deriving DecidableEq, Repr

inductive BusyPolicy where
  | append
  | inject
  | interrupt
  deriving DecidableEq, Repr

structure TurnRequest where
  origin : Origin := .user
  channel : String := ""
  chatId : String := ""
  text : String := ""
  conversation : Option String := none
  busy : BusyPolicy := .append
  deriving DecidableEq, Repr

/-- How a task ended. -/
inductive TaskResult (O : Type) where
  | returned (outcome : Option O)
  | cancelled
  deriving DecidableEq, Repr

def TaskResult.outcome {O : Type} : TaskResult O → Option O
  | .returned outcome => outcome
  | .cancelled => none

/-- Where the task of a turn is: `failing` and `ending` await the sink of the terminal
event, `failing true` after a cancellation. -/
inductive Phase (O : Type) where
  | created
  | acquiring
  | starting
  | running
  | failing (cancelled : Bool)
  | ending (outcome : O)
  | done (result : TaskResult O)
  deriving DecidableEq, Repr

/-- The task is awaiting the runner or the sink. -/
def Phase.awaitsCode {O : Type} : Phase O → Bool
  | .starting => true
  | .running => true
  | .failing _ => true
  | .ending _ => true
  | _ => false

/-- How an awaited call of the sink ended; `failed` is an `Exception`. -/
inductive SinkEnd where
  | completed
  | failed
  | cancelled
  deriving DecidableEq, Repr

inductive RunnerEnd (O : Type) where
  | returned (outcome : O)
  | raised
  | cancelled
  deriving DecidableEq, Repr

inductive Terminal where
  | turnEnded
  | turnFailed
  deriving DecidableEq, Repr

/-- `_run_task` with `_running_fut`.  `merged` are the futures that were ever chained,
`chained` those that the turn still has to resolve; `started` and `terminals` are what the
sink was told. -/
structure Turn (O : Type) where
  req : TurnRequest
  fut : Nat
  phase : Phase O := .created
  mustCancel : Bool := false
  chained : List Nat := []
  merged : List Nat := []
  started : Bool := false
  terminals : List (Terminal × SinkEnd) := []
  deriving DecidableEq, Repr

def Turn.isDone {O : Type} (turn : Turn O) : Bool :=
  match turn.phase with
  | .done _ => true
  | _ => false

/-- `idle` when there is no worker task or it is done; `ready` before its first step. -/
inductive Worker where
  | idle
  | ready
  | awaiting
  deriving DecidableEq, Repr

/-- Who resolved a future: a cancellation of something that was waiting, the worker of a
turn, or the turn into which it was merged. -/
inductive Resolver where
  | dropped
  | worker
  | merged
  deriving DecidableEq, Repr

structure Resolution (O : Type) where
  fut : Nat
  outcome : Option O
  resolver : Resolver
  deriving DecidableEq, Repr

/-- `handed` is what the runner was given: the future of each turn it ran, and those of
each drain.  `finished` are the turns whose tasks have ended, and `taken` counts the turns
that the worker took off the queue. -/
structure Lane (O T : Type) where
  pending : List (TurnRequest × Nat) := []
  mailbox : List (TurnRequest × Nat) := []
  worker : Worker := .idle
  turn : Option (Turn O) := none
  idleSince : Option T := none
  issued : Nat := 0
  taken : Nat := 0
  resolved : List (Resolution O) := []
  handed : List (List Nat) := []
  finished : List (Turn O) := []
  deriving DecidableEq, Repr

namespace Lane

variable {O T : Type} (lane : Lane O T)

/-- `fut.done()`. -/
def isResolved (fut : Nat) : Bool := fut ∈ lane.resolved.map Resolution.fut

/-- `if not fut.done(): fut.set_result(outcome)`. -/
def resolve (fut : Nat) (outcome : Option O) (resolver : Resolver) : Lane O T :=
  if lane.isResolved fut then lane
  else { lane with resolved := lane.resolved ++ [{ fut, outcome, resolver }] }

def resolveAll (futs : List Nat) (outcome : Option O) (resolver : Resolver) : Lane O T :=
  futs.foldl (fun lane fut => lane.resolve fut outcome resolver) lane

/-- `self._run_task is not None and not self._run_task.done()`. -/
def isRunning : Bool :=
  match lane.turn with
  | some turn => !turn.isDone
  | none => false

/-- `self._run_task.cancel()`, which does nothing to a task that is done. -/
def cancelTask : Lane O T :=
  { lane with turn := lane.turn.map fun turn =>
      if turn.isDone then turn else { turn with mustCancel := true } }

def enqueue (entry : TurnRequest × Nat) (front : Bool) : Lane O T :=
  { lane with pending := if front then entry :: lane.pending else lane.pending ++ [entry] }

/-- A worker task is created unless there is a live one. -/
def wakeWorker : Lane O T :=
  { lane with worker := if lane.worker = .idle then .ready else lane.worker }

/-- A future is created, and the lane is not silent any more. -/
def issue : Lane O T := { lane with issued := lane.issued + 1, idleSince := none }

/-- The new future is the one with the number `lane.issued`. -/
def submit (req : TurnRequest) (policy : BusyPolicy) : Lane O T :=
  let entry := (req, lane.issued)
  let lane := lane.issue
  if policy = .interrupt ∧ lane.isRunning then (lane.cancelTask.enqueue entry true).wakeWorker
  else if policy = .inject ∧ lane.isRunning then
    { lane with mailbox := lane.mailbox ++ [entry] }
  else (lane.enqueue entry false).wakeWorker

def withPending (pending : List (TurnRequest × Nat)) : Lane O T := { lane with pending }

def withMailbox (mailbox : List (TurnRequest × Nat)) : Lane O T := { lane with mailbox }

def cancelTurn (fut : Nat) : Lane O T :=
  if lane.isResolved fut then lane
  else if fut ∈ lane.pending.map Prod.snd then
    (lane.withPending (lane.pending.eraseP fun entry => entry.2 = fut)).resolve fut none .dropped
  else if fut ∈ lane.mailbox.map Prod.snd then
    (lane.withMailbox (lane.mailbox.eraseP fun entry => entry.2 = fut)).resolve fut none .dropped
  else if lane.turn.map Turn.fut = some fut then lane.cancelTask
  else lane

def cancelRunning : Lane O T := lane.cancelTask

def drainPending : Lane O T :=
  { lane with pending := [], mailbox := [] }.resolveAll
    (lane.pending.map Prod.snd ++ lane.mailbox.map Prod.snd) none .dropped

/-- `Lane.cancel`, the action of `/stop`. -/
def cancel : Lane O T := lane.cancelRunning.drainPending

/-! ## The worker -/

/-- The head of the loop of `_run_worker`: the next turn, or the end of the worker. -/
def takeNext (now : T) : Lane O T :=
  match lane.pending with
  | [] => { lane with worker := .idle, idleSince := some now }
  | (req, fut) :: rest =>
      { lane with
        pending := rest
        worker := .awaiting
        turn := some { req, fut }
        taken := lane.taken + 1 }

/-- The `finally` of `_run_worker`: the future of the turn is resolved, and what the turn
did not drain goes to the end of the queue. -/
def closeTurn (turn : Turn O) (result : TaskResult O) : Lane O T :=
  let lane := lane.resolve turn.fut result.outcome .worker
  { lane with pending := lane.pending ++ lane.mailbox, mailbox := [], turn := none }

def runWorker (now : T) : Lane O T :=
  match lane.worker, lane.turn with
  | .ready, _ => lane.takeNext now
  | .awaiting, some turn =>
      match turn.phase with
      | .done result => (lane.closeTurn turn result).takeNext now
      | _ => lane
  | _, _ => lane

/-! ## The task of a turn -/

def setTurn (turn : Turn O) : Lane O T := { lane with turn := some turn }

/-- The coroutine of the task is over. -/
def finish (turn : Turn O) (result : TaskResult O) : Lane O T :=
  let result := if turn.mustCancel then .cancelled else result
  let turn := { turn with phase := .done result }
  { lane.setTurn turn with finished := lane.finished ++ [turn] }

/-- The futures chained to the turn are resolved. -/
def settleChained (turn : Turn O) (outcome : Option O) : Lane O T :=
  (lane.resolveAll turn.chained outcome .merged).setTurn { turn with chained := [] }

/-- The first step of the task. -/
def beginTurn (turn : Turn O) : Lane O T :=
  if turn.mustCancel then lane.finish turn .cancelled
  else lane.setTurn { turn with phase := .acquiring }

/-- The slot of the pool is acquired. -/
def acquired (turn : Turn O) : Lane O T :=
  if turn.mustCancel then lane.finish turn .cancelled
  else lane.setTurn { turn with phase := .starting }

/-- The sink of `TurnStarted` is back; the runner is called in the same step. -/
def startTurn (turn : Turn O) : SinkEnd → Lane O T
  | .completed =>
      { lane.setTurn { turn with phase := .running, started := true } with
        handed := lane.handed ++ [[turn.fut]] }
  | .failed => lane.finish turn (.returned none)
  | .cancelled => lane.finish turn .cancelled

/-- `drain`, called by the runner. -/
def drain (turn : Turn O) : Lane O T :=
  let futs := lane.mailbox.map Prod.snd
  { lane.setTurn { turn with chained := turn.chained ++ futs, merged := turn.merged ++ futs } with
    mailbox := []
    handed := lane.handed ++ [futs] }

/-- The runner is back: the terminal event goes to the sink. -/
def endRunner (turn : Turn O) : RunnerEnd O → Lane O T
  | .returned outcome =>
      lane.settleChained { turn with phase := .ending outcome } (some outcome)
  | .raised => lane.setTurn { turn with phase := .failing false }
  | .cancelled => lane.setTurn { turn with phase := .failing true }

/-- The sink of the terminal event is back. -/
def endTurn (turn : Turn O) (sinkEnd : SinkEnd) : Lane O T :=
  match turn.phase with
  | .ending outcome =>
      lane.finish { turn with terminals := turn.terminals ++ [(.turnEnded, sinkEnd)] }
        (if sinkEnd = .cancelled then .cancelled else .returned (some outcome))
  | .failing cancelled =>
      let turn := { turn with terminals := turn.terminals ++ [(.turnFailed, sinkEnd)] }
      (lane.settleChained turn none).finish { turn with chained := [] }
        (if cancelled ∨ sinkEnd = .cancelled then .cancelled else .returned none)
  | _ => lane

end Lane

/-- The steps of a lane: the calls that are made on it, and those of its tasks. -/
inductive LaneStep (O T : Type) where
  | submit (req : TurnRequest) (policy : BusyPolicy)
  | cancelTurn (fut : Nat)
  | cancelRunning
  | drainPending
  | worker (now : T)
  | beginTurn
  | acquired
  | startTurn (sinkEnd : SinkEnd)
  | drain
  | deliver
  | endRunner (runnerEnd : RunnerEnd O)
  | endTurn (sinkEnd : SinkEnd)
  deriving DecidableEq, Repr

namespace Lane

variable {O T : Type}

/-- A step of the task of the current turn, in the phase it belongs to. -/
def taskStep (lane : Lane O T) (turn : Turn O) : LaneStep O T → Lane O T
  | .beginTurn => if turn.phase matches .created then lane.beginTurn turn else lane
  | .acquired => if turn.phase matches .acquiring then lane.acquired turn else lane
  | .startTurn sinkEnd =>
      if turn.phase matches .starting then lane.startTurn turn sinkEnd else lane
  | .drain => if turn.phase matches .running then lane.drain turn else lane
  | .deliver =>
      if turn.phase.awaitsCode then lane.setTurn { turn with mustCancel := false } else lane
  | .endRunner runnerEnd =>
      if turn.phase matches .running then lane.endRunner turn runnerEnd else lane
  | .endTurn sinkEnd => lane.endTurn turn sinkEnd
  | _ => lane

def step (lane : Lane O T) : LaneStep O T → Lane O T
  | .submit req policy => lane.submit req policy
  | .cancelTurn fut => lane.cancelTurn fut
  | .cancelRunning => lane.cancelRunning
  | .drainPending => lane.drainPending
  | .worker now => lane.runWorker now
  | other =>
      match lane.turn with
      | some turn => lane.taskStep turn other
      | none => lane

/-- What holds of the lane before and after every step of its task holds after a step that only
the task takes. -/
theorem afterTask {P : Lane O T → Prop} {lane : Lane O T} {i : LaneStep O T}
    (htask : ∀ turn, lane.turn = some turn → P (lane.taskStep turn i)) (hidle : P lane) :
    P (match lane.turn with
      | some turn => lane.taskStep turn i
      | none => lane) := by
  split
  · next turn hturn => exact htask turn hturn
  · exact hidle

theorem afterTask_eq {lane : Lane O T} {turn : Turn O} {i : LaneStep O T}
    (hturn : lane.turn = some turn) :
    (match lane.turn with
      | some turn => lane.taskStep turn i
      | none => lane) = lane.taskStep turn i := by
  rw [hturn]

end Lane

def laneMachine (O T : Type) : Machine (Lane O T) (LaneStep O T) Unit where
  step lane i := (lane.step i, ())

end Pico
end CodeCub

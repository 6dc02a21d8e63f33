import CodeCub.Machine.Run
import CodeCub.Runs.RunQueue
import Mathlib.Logic.Function.Basic

/-!
# Run controls

A control is a message about a run: inject a text, interrupt it, cancel it, answer an
approval.  Controls are published to one Redis stream, and every worker reads the whole
stream through a group of its own.  A worker looks a control up among the runs it is
executing at that moment; a control it meets before or after that run has no effect and
is acknowledged all the same.

The steps below are the critical sections of the workers' threads and the Redis commands
between them, in any order: any number of workers, of `run_once` calls, and of polls.
-/

namespace CodeCub
namespace Runs

open Python

inductive ControlType where
  | runInject
  | runInterrupt
  | runCancel
  | approvalResolve
  deriving DecidableEq, Repr

/-- `payload` is the dictionary of the message. -/
structure ControlMessage (P : Type) where
  type : ControlType
  runId : String
  turnId : String := ""
  sessionId : String := ""
  conversationId : String := ""
  traceId : String := ""
  payload : P
  controlId : String
  deriving DecidableEq, Repr

/-- What Redis keeps for one worker: the cursor of its group, the entries delivered to it
and not acknowledged, and the keys that mark controls as processed. -/
structure ControlGroup where
  delivered : Nat := 0
  pending : List Nat := []
  processed : List String := []

/-- The memory of a worker.  An agent is named by the `run_once` call it was made for. -/
structure AgentRunWorker where
  activeAgents : Dict String Nat := ∅
  mailboxes : Dict String (List String) := ∅
  cancelled : List String := []
  controls : ControlGroup := {}

inductive RunStatus where
  | completed
  | cancelled
  | failed
  deriving DecidableEq, Repr

/-- What `run_once` returns. -/
structure RunReport where
  runId : String
  status : RunStatus
  answer : Option String
  error : Option String
  deriving DecidableEq, Repr

/-- Where a `run_once` call is: it has its envelope, its agent is at work, the agent is
done, the run is off the worker's tables, the queue and the caller know.  A factory that
raises leaves the call where it is. -/
inductive RunPhase where
  | dequeued
  | active
  | asked (answer : String) (error : Option String)
  | closed (wasCancelled : Bool) (answer : String) (error : Option String)
  | reported (report : RunReport)
  | crashed
  deriving DecidableEq, Repr

/-- A `run_once` call; `drained` is what its agent got from the mailbox. -/
structure RunCall where
  worker : Nat
  runId : String
  phase : RunPhase
  drained : List String := []
  deriving DecidableEq, Repr

/-- Where a poll is: the entry is read, the control is marked as processed, its handler
found the agent, `apply_once` answered, the entry is acknowledged; or it raised. -/
inductive PollPhase where
  | delivered
  | claimed
  | handled (agent : Nat)
  | applied (result : Bool)
  | acknowledged (result : Bool)
  | raised
  deriving DecidableEq, Repr

structure PollCall (P : Type) where
  worker : Nat
  entry : Nat
  message : ControlMessage P
  phase : PollPhase
  deriving DecidableEq, Repr

/-- The queue, the control stream, the workers and the calls on them.  `handled` is the
history of the handler's effects: the agent it found, and the control. -/
structure ControlSystem (E P : Type) where
  queue : LocalRunQueue E := {}
  stream : List (ControlMessage P) := []
  workers : Nat → AgentRunWorker := fun _ => {}
  runs : List RunCall := []
  polls : List (PollCall P) := []
  handled : List (Nat × ControlMessage P) := []

inductive ControlStep (E P : Type) where
  | enqueue (run : RunEnvelope E)
  | publish (message : ControlMessage P)
  | dequeue (worker : Nat)
  | activate (call : Nat)
  | crash (call : Nat)
  | drain (call : Nat)
  | askEnds (call : Nat) (answer : String) (error : Option String)
  | close (call : Nat)
  | report (call : Nat)
  | consume (worker : Nat)
  | claim (poll : Nat)
  | handle (poll : Nat) (resolverRaises : Bool)
  | record (poll : Nat) (raises : Bool)
  | ack (poll : Nat)

namespace ControlSystem

-- `text` is `str(payload.get("message", ""))`.
variable {E P : Type} (text : P → String) (s : ControlSystem E P)

def setWorker (k : Nat) (worker : AgentRunWorker) : ControlSystem E P :=
  { s with workers := Function.update s.workers k worker }

def setRun (call : Nat) (c : RunCall) : ControlSystem E P :=
  { s with runs := s.runs.set call c }

def setPoll (poll : Nat) (p : PollCall P) (phase : PollPhase) : ControlSystem E P :=
  { s with polls := s.polls.set poll { p with phase } }

/-! ## A run -/

def dequeue (k : Nat) : ControlSystem E P :=
  match s.queue.dequeue with
  | (none, queue) => { s with queue }
  | (some envelope, queue) =>
      { s with
        queue
        runs := s.runs ++ [{ worker := k, runId := envelope.runId, phase := .dequeued }] }

/-- The agent is made and the run enters the worker's tables. -/
def activate (call : Nat) (c : RunCall) : ControlSystem E P :=
  let worker := s.workers c.worker
  (s.setWorker c.worker
    { worker with
      activeAgents := worker.activeAgents.insert c.runId call
      mailboxes := worker.mailboxes.insert c.runId [] }).setRun call { c with phase := .active }

/-- `_drain_mailbox`, called by the agent. -/
def drain (call : Nat) (c : RunCall) : ControlSystem E P :=
  let worker := s.workers c.worker
  match worker.mailboxes.lookup c.runId with
  | none => s
  | some items =>
      (s.setWorker c.worker
        { worker with mailboxes := worker.mailboxes.insert c.runId [] }).setRun call
          { c with drained := c.drained ++ items }

/-- The `finally` of `run_once`. -/
def close (call : Nat) (c : RunCall) (answer : String) (error : Option String) :
    ControlSystem E P :=
  let worker := s.workers c.worker
  (s.setWorker c.worker
    { worker with
      activeAgents := worker.activeAgents.erase c.runId
      mailboxes := worker.mailboxes.erase c.runId
      cancelled := worker.cancelled.filter (· ≠ c.runId) }).setRun call
    { c with phase := .closed (c.runId ∈ worker.cancelled) answer error }

/-- The end of `run_once`. -/
def finalReport (runId : String) (wasCancelled : Bool) (answer : String) :
    Option String → RunReport
  | some error =>
      if wasCancelled then { runId, status := .cancelled, answer := some answer, error := some error }
      else { runId, status := .failed, answer := none, error := some error }
  | none =>
      if wasCancelled then { runId, status := .cancelled, answer := some answer, error := none }
      else { runId, status := .completed, answer := some answer, error := none }

def report (call : Nat) (c : RunCall) (wasCancelled : Bool) (answer : String)
    (error : Option String) : ControlSystem E P :=
  let report := finalReport c.runId wasCancelled answer error
  let queue :=
    match report.status with
    | .failed => (s.queue.fail c.runId (error.getD "")).2
    | _ => s.queue.complete c.runId
  { s with queue }.setRun call { c with phase := .reported report }

/-! ## A control -/

/-- `consume_one`. -/
def consume (k : Nat) : ControlSystem E P :=
  let worker := s.workers k
  match s.stream[worker.controls.delivered]? with
  | none => s
  | some message =>
      let entry := worker.controls.delivered
      { s.setWorker k
          { worker with
            controls :=
              { worker.controls with
                delivered := entry + 1
                pending := worker.controls.pending ++ [entry] } } with
        polls := s.polls ++ [{ worker := k, entry, message, phase := .delivered }] }

/-- `SET processed NX`: the mark comes before the handler. -/
def claim (poll : Nat) (p : PollCall P) : ControlSystem E P :=
  let worker := s.workers p.worker
  if p.message.controlId ∈ worker.controls.processed then s.setPoll poll p (.applied false)
  else
    (s.setWorker p.worker
      { worker with
        controls :=
          { worker.controls with
            processed := worker.controls.processed ++ [p.message.controlId] } }).setPoll poll p
      .claimed

/-- What the handler does to the tables of the worker. -/
def effect (worker : AgentRunWorker) (message : ControlMessage P) : AgentRunWorker :=
  match message.type with
  | .runInject =>
      { worker with
        mailboxes := worker.mailboxes.insert message.runId
          ((worker.mailboxes.lookup message.runId).getD [] ++ [text message.payload]) }
  | .runInterrupt | .runCancel =>
      if message.runId ∈ worker.cancelled then worker
      else { worker with cancelled := worker.cancelled ++ [message.runId] }
  | .approvalResolve => worker

/-- The handler under the lock.  A control of a run that is not active here is dropped. -/
def handle (poll : Nat) (p : PollCall P) (resolverRaises : Bool) : ControlSystem E P :=
  let worker := s.workers p.worker
  match worker.activeAgents.lookup p.message.runId with
  | none => s.setPoll poll p (.applied true)
  | some agent =>
      if p.message.type = .approvalResolve ∧ resolverRaises then s.setPoll poll p .raised
      else
        { (s.setWorker p.worker (effect text worker p.message)).setPoll poll p (.handled agent) with
          handled := s.handled ++ [(agent, p.message)] }

def ack (poll : Nat) (p : PollCall P) (result : Bool) : ControlSystem E P :=
  let worker := s.workers p.worker
  (s.setWorker p.worker
    { worker with
      controls :=
        { worker.controls with
          pending := worker.controls.pending.filter (· ≠ p.entry) } }).setPoll poll p
    (.acknowledged result)

/-- A step that a call is not ready for does nothing. -/
def apply : ControlStep E P → ControlSystem E P
  | .enqueue run => { s with queue := (s.queue.enqueue run).2 }
  | .publish message => { s with stream := s.stream ++ [message] }
  | .dequeue k => s.dequeue k
  | .activate call =>
      match s.runs[call]? with
      | some c => if c.phase = .dequeued then s.activate call c else s
      | none => s
  | .crash call =>
      match s.runs[call]? with
      | some c => if c.phase = .dequeued then s.setRun call { c with phase := .crashed } else s
      | none => s
  | .drain call =>
      match s.runs[call]? with
      | some c => if c.phase = .active then s.drain call c else s
      | none => s
  | .askEnds call answer error =>
      match s.runs[call]? with
      | some c =>
          if c.phase = .active then s.setRun call { c with phase := .asked answer error } else s
      | none => s
  | .close call =>
      match s.runs[call]? with
      | some c =>
          match c.phase with
          | .asked answer error => s.close call c answer error
          | _ => s
      | none => s
  | .report call =>
      match s.runs[call]? with
      | some c =>
          match c.phase with
          | .closed wasCancelled answer error => s.report call c wasCancelled answer error
          | _ => s
      | none => s
  | .consume k => s.consume k
  | .claim poll =>
      match s.polls[poll]? with
      | some p => if p.phase = .delivered then s.claim poll p else s
      | none => s
  | .handle poll resolverRaises =>
      match s.polls[poll]? with
      | some p => if p.phase = .claimed then s.handle text poll p resolverRaises else s
      | none => s
  | .record poll raises =>
      match s.polls[poll]? with
      | some p =>
          match p.phase with
          | .handled _ => s.setPoll poll p (if raises then .raised else .applied true)
          | _ => s
      | none => s
  | .ack poll =>
      match s.polls[poll]? with
      | some p =>
          match p.phase with
          | .applied result => s.ack poll p result
          | _ => s
      | none => s

end ControlSystem

def controlMachine (E : Type) {P : Type} (text : P → String) :
    Machine (ControlSystem E P) (ControlStep E P) Unit :=
  ⟨fun s i => (s.apply text i, ())⟩

namespace RunCall

/-- `run_once` has not returned. -/
def IsOpen (c : RunCall) : Prop := ∀ report, c.phase ≠ .reported report

/-- The run is in the tables of its worker. -/
def IsActive (c : RunCall) : Prop := c.phase = .active ∨ ∃ answer error, c.phase = .asked answer error

theorem IsActive.isOpen {c : RunCall} (h : c.IsActive) : c.IsOpen := by
  rintro report hreported
  rcases h with h | ⟨answer, error, h⟩
  · rw [h] at hreported
    cases hreported
  · rw [h] at hreported
    cases hreported

end RunCall

/-- The control ends the run. -/
def ControlMessage.Stops {P : Type} (message : ControlMessage P) : Prop :=
  message.type = .runInterrupt ∨ message.type = .runCancel

namespace ControlSystem

variable {E P : Type} {text : P → String} {s s' : ControlSystem E P}

theorem getElem?_set_run {runs : List RunCall} {i j : Nat} {c c' d : RunCall}
    (hc : runs[i]? = some c) (hd : (runs.set i c')[j]? = some d) :
    (j = i ∧ d = c') ∨ (j ≠ i ∧ runs[j]? = some d) := by
  by_cases hj : i = j
  · subst hj
    rw [List.getElem?_set_self (List.getElem?_eq_some_iff.mp hc).1, Option.some.injEq] at hd
    exact Or.inl ⟨rfl, hd.symm⟩
  · rw [List.getElem?_set_ne hj] at hd
    exact Or.inr ⟨Ne.symm hj, hd⟩

/-! ## One call for a run at a time -/

/-- A run waits once in the queue, or one call of `run_once` has it. -/
structure Orderly (queue : LocalRunQueue E) (runs : List RunCall) : Prop where
  nodup : (queue.pending.map RunEnvelope.runId).Nodup
  queued : ∀ run ∈ queue.pending, queue.statuses.lookup run.runId = some .queued
  running : ∀ (i : Nat) (c : RunCall), runs[i]? = some c → c.IsOpen →
    queue.statuses.lookup c.runId = some .running
  exclusive : ∀ (i j : Nat) (c d : RunCall), runs[i]? = some c → runs[j]? = some d →
    c.IsOpen → d.IsOpen → c.runId = d.runId → i = j

namespace Orderly

variable {queue : LocalRunQueue E} {runs : List RunCall}

theorem enqueue (h : Orderly queue runs) (run : RunEnvelope E) :
    Orderly (queue.enqueue run).2 runs := by
  unfold LocalRunQueue.enqueue
  split
  · exact h
  · next hfree =>
      simp only [List.mem_cons, List.not_mem_nil, or_false, not_or] at hfree
      have hne : ∀ other ∈ queue.pending, other.runId ≠ run.runId := by
        intro other hother hsame
        have hqueued := h.queued other hother
        rw [hsame] at hqueued
        exact hfree.1 hqueued
      refine ⟨?_, ?_, ?_, h.exclusive⟩
      · show ((queue.pending ++ [run]).map RunEnvelope.runId).Nodup
        rw [List.map_append, List.nodup_append]
        refine ⟨h.nodup, List.nodup_singleton _, ?_⟩
        intro id hid other hother hsame
        rw [List.map_singleton, List.mem_singleton] at hother
        obtain ⟨waiting, hwaiting, rfl⟩ := List.mem_map.mp hid
        exact hne waiting hwaiting (hsame.trans hother)
      · intro other hother
        rcases List.mem_append.mp hother with hother | hother
        · exact (AList.lookup_insert_ne (hne other hother)).trans (h.queued other hother)
        · rw [List.mem_singleton.mp hother]
          exact AList.lookup_insert _
      · intro i c hc hopen
        have hrunning := h.running i c hc hopen
        have hother : c.runId ≠ run.runId := by
          intro hsame
          rw [hsame] at hrunning
          exact hfree.2.1 hrunning
        exact (AList.lookup_insert_ne hother).trans hrunning

theorem dequeue (h : Orderly queue runs) {run : RunEnvelope E} {rest : List (RunEnvelope E)}
    (hpending : queue.pending = run :: rest) (k : Nat) :
    Orderly { pending := rest, statuses := queue.statuses.insert run.runId .running }
      (runs ++ [{ worker := k, runId := run.runId, phase := .dequeued }]) := by
  have hnodup := h.nodup
  rw [hpending, List.map_cons, List.nodup_cons] at hnodup
  have hqueued : queue.statuses.lookup run.runId = some .queued :=
    h.queued run (by rw [hpending]; exact List.mem_cons_self)
  have hfree : ∀ (i : Nat) (c : RunCall), runs[i]? = some c → c.IsOpen →
      c.runId ≠ run.runId := by
    intro i c hc hopen hsame
    have hrunning := h.running i c hc hopen
    rw [hsame, hqueued] at hrunning
    cases hrunning
  have hnew : ∀ (j : Nat) (d : RunCall),
      (runs ++ [{ worker := k, runId := run.runId, phase := .dequeued }])[j]? = some d →
        runs[j]? = some d ∨ (j = runs.length ∧ d.runId = run.runId) := by
    intro j d hd
    by_cases hlt : j < runs.length
    · rw [List.getElem?_append_left hlt] at hd
      exact Or.inl hd
    · rw [List.getElem?_append_right (by omega)] at hd
      have hj : j - runs.length = 0 := by
        by_contra hpos
        rw [List.getElem?_eq_none (by simp; omega)] at hd
        cases hd
      rw [hj] at hd
      cases hd
      exact Or.inr ⟨by omega, rfl⟩
  refine ⟨hnodup.2, ?_, ?_, ?_⟩
  · intro other hother
    have hne : other.runId ≠ run.runId := by
      intro hsame
      exact hnodup.1 (hsame ▸ List.mem_map_of_mem hother)
    refine (AList.lookup_insert_ne hne).trans (h.queued other ?_)
    rw [hpending]
    exact List.mem_cons_of_mem _ hother
  · intro j d hd hopen
    rcases hnew j d hd with hold | ⟨-, hsame⟩
    · exact (AList.lookup_insert_ne (hfree j d hold hopen)).trans (h.running j d hold hopen)
    · rw [hsame]
      exact AList.lookup_insert _
  · intro i j c d hc hd hopenc hopend hsame
    rcases hnew i c hc with hc' | ⟨hi, hci⟩
    · rcases hnew j d hd with hd' | ⟨hj, hdj⟩
      · exact h.exclusive i j c d hc' hd' hopenc hopend hsame
      · exact absurd (hsame.trans hdj) (hfree i c hc' hopenc)
    · rcases hnew j d hd with hd' | ⟨hj, hdj⟩
      · exact absurd (hsame.symm.trans hci) (hfree j d hd' hopend)
      · omega

/-- A call that stays open changes nothing for the queue. -/
theorem setRun (h : Orderly queue runs) {i : Nat} {c c' : RunCall} (hc : runs[i]? = some c)
    (hopen : c.IsOpen) (hid : c'.runId = c.runId) : Orderly queue (runs.set i c') := by
  refine ⟨h.nodup, h.queued, ?_, ?_⟩
  · intro j d hd hopend
    rcases getElem?_set_run hc hd with ⟨rfl, rfl⟩ | ⟨-, hd'⟩
    · rw [hid]
      exact h.running _ c hc hopen
    · exact h.running j d hd' hopend
  · intro j l d e hd he hopend hopene hsame
    rcases getElem?_set_run hc hd with ⟨rfl, rfl⟩ | ⟨-, hd'⟩
    · rcases getElem?_set_run hc he with ⟨rfl, rfl⟩ | ⟨-, he'⟩
      · rfl
      · exact h.exclusive _ l c e hc he' hopen hopene (hid.symm.trans hsame)
    · rcases getElem?_set_run hc he with ⟨rfl, rfl⟩ | ⟨-, he'⟩
      · exact h.exclusive j _ d c hd' hc hopend hopen (hsame.trans hid)
      · exact h.exclusive j l d e hd' he' hopend hopene hsame

/-- The end of a call, with a new status for its run. -/
theorem report (h : Orderly queue runs) {i : Nat} {c c' : RunCall} (hc : runs[i]? = some c)
    (hopen : c.IsOpen) (hclosed : ¬ c'.IsOpen) (status : QueueStatus) :
    Orderly { queue with statuses := queue.statuses.insert c.runId status } (runs.set i c') := by
  have hrunning := h.running i c hc hopen
  have hother : ∀ (j : Nat) (d : RunCall), (runs.set i c')[j]? = some d → d.IsOpen →
      runs[j]? = some d ∧ d.runId ≠ c.runId := by
    intro j d hd hopend
    rcases getElem?_set_run hc hd with ⟨-, rfl⟩ | ⟨hj, hd'⟩
    · exact absurd hopend hclosed
    · exact ⟨hd', fun hsame => hj (h.exclusive j i d c hd' hc hopend hopen hsame)⟩
  refine ⟨h.nodup, ?_, ?_, ?_⟩
  · intro run hrun
    have hqueued := h.queued run hrun
    refine (AList.lookup_insert_ne ?_).trans hqueued
    intro hsame
    rw [hsame, hrunning] at hqueued
    cases hqueued
  · intro j d hd hopend
    obtain ⟨hd', hne⟩ := hother j d hd hopend
    exact (AList.lookup_insert_ne hne).trans (h.running j d hd' hopend)
  · intro j l d e hd he hopend hopene hsame
    exact h.exclusive j l d e (hother j d hd hopend).1 (hother l e he hopene).1 hopend hopene hsame

end Orderly

/-! ## The tables of a worker and the history of the handlers -/

def agentAt (s : ControlSystem E P) (k : Nat) (runId : String) : Option Nat :=
  (s.workers k).activeAgents.lookup runId

def mailAt (s : ControlSystem E P) (k : Nat) (runId : String) : List String :=
  ((s.workers k).mailboxes.lookup runId).getD []

def Marked (s : ControlSystem E P) (k : Nat) (runId : String) : Prop :=
  runId ∈ (s.workers k).cancelled

/-- The texts that handlers put into the mailbox of a call, in order. -/
def injected (text : P → String) (s : ControlSystem E P) (call : Nat) : List String :=
  (s.handled.filter fun h => h.1 = call ∧ h.2.type = .runInject).map fun h => text h.2.payload

/-- A handler found the call active and marked its run as cancelled. -/
def Stopped (s : ControlSystem E P) (call : Nat) : Prop :=
  ∃ message, (call, message) ∈ s.handled ∧ message.Stops

/-- What a call has of the controls that reached it. -/
def CallOk (text : P → String) (s : ControlSystem E P) (i : Nat) (c : RunCall) : Prop :=
  match c.phase with
  | .dequeued | .crashed => injected text s i = [] ∧ ¬ s.Stopped i ∧ c.drained = []
  | .active | .asked _ _ =>
      s.agentAt c.worker c.runId = some i ∧
        injected text s i = c.drained ++ s.mailAt c.worker c.runId ∧
        (s.Stopped i ↔ s.Marked c.worker c.runId)
  | .closed wasCancelled _ _ =>
      c.drained <+: injected text s i ∧ (s.Stopped i ↔ wasCancelled = true)
  | .reported report =>
      c.drained <+: injected text s i ∧ (s.Stopped i ↔ report.status = .cancelled)

structure Tracked (text : P → String) (s : ControlSystem E P) : Prop where
  orderly : Orderly s.queue s.runs
  calls : ∀ (i : Nat) (c : RunCall), s.runs[i]? = some c → CallOk text s i c
  agents : ∀ k runId i, s.agentAt k runId = some i →
    ∃ c, s.runs[i]? = some c ∧ c.worker = k ∧ c.runId = runId ∧ c.IsActive
  marks : ∀ k runId, s.Marked k runId → s.agentAt k runId ≠ none
  past : ∀ h ∈ s.handled, h.1 < s.runs.length

/-- The tables of worker `k` say the same of the run. -/
structure SameAt (s s' : ControlSystem E P) (k : Nat) (runId : String) : Prop where
  agent : s'.agentAt k runId = s.agentAt k runId
  mail : s'.mailAt k runId = s.mailAt k runId
  marked : s'.Marked k runId ↔ s.Marked k runId

theorem callOk_active {i : Nat} {c : RunCall} (h : c.IsActive) :
    CallOk text s i c ↔ s.agentAt c.worker c.runId = some i ∧
      injected text s i = c.drained ++ s.mailAt c.worker c.runId ∧
      (s.Stopped i ↔ s.Marked c.worker c.runId) := by
  unfold CallOk
  rcases h with h | ⟨answer, error, h⟩
  · rw [h]
  · rw [h]

theorem callOk_frame {i : Nat} {c : RunCall} (h : CallOk text s i c)
    (hsame : c.IsActive → SameAt s s' c.worker c.runId)
    (hinjected : injected text s' i = injected text s i) (hstopped : s'.Stopped i ↔ s.Stopped i) :
    CallOk text s' i c := by
  by_cases hactive : c.IsActive
  · rw [callOk_active hactive] at h ⊢
    have hat := hsame hactive
    rw [hat.agent, hat.mail, hat.marked, hinjected, hstopped]
    exact h
  · unfold CallOk at h ⊢
    rw [hinjected, hstopped]
    cases hphase : c.phase with
    | active => exact absurd (Or.inl hphase) hactive
    | asked answer error => exact absurd (Or.inr ⟨answer, error, hphase⟩) hactive
    | dequeued =>
        rw [hphase] at h
        exact h
    | crashed =>
        rw [hphase] at h
        exact h
    | closed wasCancelled answer error =>
        rw [hphase] at h
        exact h
    | reported report =>
        rw [hphase] at h
        exact h

theorem injected_congr (h : s'.handled = s.handled) (i : Nat) :
    injected text s' i = injected text s i := by
  rw [injected, h, injected]

theorem stopped_congr (h : s'.handled = s.handled) (i : Nat) : s'.Stopped i ↔ s.Stopped i := by
  rw [Stopped, h, Stopped]

/-- Only the tables of worker `k₀` changed, and not where they speak of the run. -/
theorem sameAt_of_update {k₀ k : Nat} {runId : String} {worker : AgentRunWorker}
    (hworkers : s'.workers = Function.update s.workers k₀ worker)
    (hagent : k = k₀ → worker.activeAgents.lookup runId =
      (s.workers k₀).activeAgents.lookup runId)
    (hmail : k = k₀ → worker.mailboxes.lookup runId = (s.workers k₀).mailboxes.lookup runId)
    (hmarked : k = k₀ → (runId ∈ worker.cancelled ↔ runId ∈ (s.workers k₀).cancelled)) :
    SameAt s s' k runId := by
  by_cases hk : k = k₀
  · subst hk
    refine ⟨?_, ?_, ?_⟩
    · rw [agentAt, hworkers, Function.update_self, hagent rfl, agentAt]
    · rw [mailAt, hworkers, Function.update_self, hmail rfl, mailAt]
    · rw [Marked, hworkers, Function.update_self, hmarked rfl, Marked]
  · refine ⟨?_, ?_, ?_⟩
    · rw [agentAt, hworkers, Function.update_of_ne hk, agentAt]
    · rw [mailAt, hworkers, Function.update_of_ne hk, mailAt]
    · rw [Marked, hworkers, Function.update_of_ne hk, Marked]

namespace Tracked

/-- Steps that leave the runs and the tables alone. -/
theorem quiet (h : Tracked text s) (horderly : Orderly s'.queue s'.runs)
    (hruns : s'.runs = s.runs) (hhandled : s'.handled = s.handled)
    (hsame : ∀ k runId, SameAt s s' k runId) : Tracked text s' where
  orderly := horderly
  calls i c hc := by
    rw [hruns] at hc
    exact callOk_frame (h.calls i c hc) (fun _ => hsame _ _) (injected_congr hhandled i)
      (stopped_congr hhandled i)
  agents k runId i hagent := by
    rw [(hsame k runId).agent] at hagent
    rw [hruns]
    exact h.agents k runId i hagent
  marks k runId hmarked := by
    rw [(hsame k runId).agent]
    exact h.marks k runId ((hsame k runId).marked.mp hmarked)
  past entry hentry := by
    rw [hhandled] at hentry
    rw [hruns]
    exact h.past entry hentry

/-- A call moves on, and with it the tables of its worker at its run. -/
theorem move (h : Tracked text s) {i : Nat} {c c' : RunCall} (hc : s.runs[i]? = some c)
    (hopen : c.IsOpen) (hruns : s'.runs = s.runs.set i c') (hhandled : s'.handled = s.handled)
    (hid : c'.runId = c.runId) (hworker : c'.worker = c.worker)
    (horderly : Orderly s'.queue s'.runs)
    (hsame : ∀ k runId, ¬(k = c.worker ∧ runId = c.runId) → SameAt s s' k runId)
    (hcall : CallOk text s' i c')
    (hagent : ∀ j, s'.agentAt c.worker c.runId = some j → j = i ∧ c'.IsActive)
    (hmarked : s'.Marked c.worker c.runId → s'.agentAt c.worker c.runId ≠ none) :
    Tracked text s' where
  orderly := horderly
  calls j d hd := by
    rw [hruns] at hd
    rcases getElem?_set_run hc hd with ⟨rfl, rfl⟩ | ⟨hj, hd'⟩
    · exact hcall
    · refine callOk_frame (h.calls j d hd') (fun hactive => hsame _ _ ?_)
        (injected_congr hhandled j) (stopped_congr hhandled j)
      rintro ⟨-, hrun⟩
      exact hj (h.orderly.exclusive j i d c hd' hc hactive.isOpen hopen hrun)
  agents k runId j hj := by
    rw [hruns]
    by_cases hat : k = c.worker ∧ runId = c.runId
    · obtain ⟨rfl, rfl⟩ := hat
      obtain ⟨rfl, hactive⟩ := hagent j hj
      exact ⟨c', List.getElem?_set_self (List.getElem?_eq_some_iff.mp hc).1, hworker, hid, hactive⟩
    · rw [(hsame k runId hat).agent] at hj
      obtain ⟨d, hd, hk, hr, hactive⟩ := h.agents k runId j hj
      refine ⟨d, ?_, hk, hr, hactive⟩
      rw [List.getElem?_set_ne]
      · exact hd
      · rintro rfl
        rw [hc, Option.some.injEq] at hd
        subst hd
        exact hat ⟨hk.symm, hr.symm⟩
  marks k runId hmark := by
    by_cases hat : k = c.worker ∧ runId = c.runId
    · obtain ⟨rfl, rfl⟩ := hat
      exact hmarked hmark
    · rw [(hsame k runId hat).agent]
      exact h.marks k runId ((hsame k runId hat).marked.mp hmark)
  past entry hentry := by
    rw [hhandled] at hentry
    rw [hruns, List.length_set]
    exact h.past entry hentry

/-- A new call is not in the tables and no handler has met it. -/
theorem dequeue (h : Tracked text s) (k : Nat) : Tracked text (s.dequeue k) := by
  unfold ControlSystem.dequeue LocalRunQueue.dequeue
  cases hpending : s.queue.pending with
  | nil => exact h.quiet h.orderly rfl rfl (fun _ _ => ⟨rfl, rfl, Iff.rfl⟩)
  | cons run rest =>
      have hlength : ∀ entry ∈ s.handled, entry.1 ≠ s.runs.length := by
        intro entry hentry
        exact Nat.ne_of_lt (h.past entry hentry)
      refine ⟨h.orderly.dequeue hpending k, ?_, ?_, h.marks, ?_⟩
      · intro i c hc
        by_cases hlt : i < s.runs.length
        · have hc' := hc
          rw [show ControlSystem.runs _ = s.runs ++ [_] from rfl,
            List.getElem?_append_left hlt] at hc'
          exact callOk_frame (h.calls i c hc') (fun _ => ⟨rfl, rfl, Iff.rfl⟩) rfl Iff.rfl
        · have hlen := (List.getElem?_eq_some_iff.mp hc).1
          rw [show ControlSystem.runs _ = s.runs ++ [_] from rfl, List.length_append,
            List.length_singleton] at hlen
          have hi : i = s.runs.length := by omega
          subst hi
          have hc' := hc
          rw [show ControlSystem.runs _ = s.runs ++ [_] from rfl,
            List.getElem?_append_right (Nat.le_refl _), Nat.sub_self] at hc'
          cases hc'
          refine ⟨?_, ?_, rfl⟩
          · rw [injected, List.map_eq_nil_iff, List.filter_eq_nil_iff]
            intro entry hentry
            simp [hlength entry hentry]
          · rintro ⟨message, hmessage, -⟩
            exact hlength _ hmessage rfl
      · intro w runId i hagent
        obtain ⟨c, hc, hrest⟩ := h.agents w runId i hagent
        refine ⟨c, ?_, hrest⟩
        show (s.runs ++ [_])[i]? = some c
        rw [List.getElem?_append_left (List.getElem?_eq_some_iff.mp hc).1]
        exact hc
      · intro entry hentry
        show entry.1 < (s.runs ++ [_]).length
        rw [List.length_append]
        exact Nat.lt_add_right _ (h.past entry hentry)

/-! ### The steps of a call -/

section Call

variable {i : Nat} {c : RunCall}

theorem isOpen_of_phase {phase : RunPhase} (h : c.phase = phase)
    (hphase : ∀ report, phase ≠ .reported report) : c.IsOpen := by
  intro report hreported
  exact hphase report (h.symm.trans hreported)

theorem activate (h : Tracked text s) (hc : s.runs[i]? = some c) (hphase : c.phase = .dequeued) :
    Tracked text (s.activate i c) := by
  have hopen : c.IsOpen := isOpen_of_phase hphase (by intro report hr; cases hr)
  have hactive : ({ c with phase := .active } : RunCall).IsActive := Or.inl rfl
  obtain ⟨hinjected, hstopped, hdrained⟩ : injected text s i = [] ∧ ¬ s.Stopped i ∧
      c.drained = [] := by
    have hcall := h.calls i c hc
    rwa [CallOk, hphase] at hcall
  -- No other open call has this run, so no mark of it is left in the tables.
  have hunmarked : ¬ s.Marked c.worker c.runId := by
    intro hmarked
    cases hagent : s.agentAt c.worker c.runId with
    | none => exact h.marks _ _ hmarked hagent
    | some j =>
        obtain ⟨d, hd, -, hrun, hd_active⟩ := h.agents _ _ j hagent
        have hj := h.orderly.exclusive j i d c hd hc hd_active.isOpen hopen hrun
        subst hj
        rw [hc, Option.some.injEq] at hd
        subst hd
        rcases hd_active with hd_active | ⟨answer, error, hd_active⟩
        all_goals
          rw [hphase] at hd_active
          cases hd_active
  refine h.move hc hopen rfl rfl rfl rfl (h.orderly.setRun hc hopen rfl) ?_ ?_ ?_ ?_
  · intro k runId hat
    refine sameAt_of_update rfl ?_ ?_ (fun _ => Iff.rfl)
    · intro hk
      exact AList.lookup_insert_ne (fun hr => hat ⟨hk, hr⟩)
    · intro hk
      exact AList.lookup_insert_ne (fun hr => hat ⟨hk, hr⟩)
  · rw [callOk_active hactive]
    refine ⟨?_, ?_, ?_⟩
    · simp [agentAt, ControlSystem.activate, setWorker, setRun]
    · rw [show injected text (s.activate i c) i = injected text s i from rfl, hinjected]
      simp [mailAt, ControlSystem.activate, setWorker, setRun, hdrained]
    · have hsame : (s.activate i c).Marked c.worker c.runId ↔ s.Marked c.worker c.runId := by
        simp [Marked, ControlSystem.activate, setWorker, setRun]
      rw [hsame]
      exact ⟨fun hs => absurd hs hstopped, fun hm => absurd hm hunmarked⟩
  · intro j hj
    simp only [agentAt, ControlSystem.activate, setWorker, setRun, Function.update_self,
      AList.lookup_insert, Option.some.injEq] at hj
    exact ⟨hj.symm, hactive⟩
  · intro _
    simp [agentAt, ControlSystem.activate, setWorker, setRun]

theorem crash (h : Tracked text s) (hc : s.runs[i]? = some c) (hphase : c.phase = .dequeued) :
    Tracked text (s.setRun i { c with phase := .crashed }) := by
  have hopen : c.IsOpen := isOpen_of_phase hphase (by intro report hr; cases hr)
  refine h.move hc hopen rfl rfl rfl rfl (h.orderly.setRun hc hopen rfl)
    (fun _ _ _ => ⟨rfl, rfl, Iff.rfl⟩) ?_ ?_ (h.marks _ _)
  · have hcall := h.calls i c hc
    rw [CallOk, hphase] at hcall
    exact hcall
  · intro j hj
    obtain ⟨d, hd, -, hrun, hactive⟩ := h.agents _ _ j hj
    have hij := h.orderly.exclusive j i d c hd hc hactive.isOpen hopen hrun
    subst hij
    rw [hc, Option.some.injEq] at hd
    subst hd
    rcases hactive with hactive | ⟨answer, error, hactive⟩
    all_goals
      rw [hphase] at hactive
      cases hactive

theorem drain (h : Tracked text s) (hc : s.runs[i]? = some c) (hphase : c.phase = .active) :
    Tracked text (s.drain i c) := by
  have hactive : c.IsActive := Or.inl hphase
  have hcall := (callOk_active hactive).mp (h.calls i c hc)
  cases hbox : (s.workers c.worker).mailboxes.lookup c.runId with
  | none =>
      simp only [ControlSystem.drain, hbox]
      exact h
  | some items =>
      simp only [ControlSystem.drain, hbox]
      have hmail : s.mailAt c.worker c.runId = items := by rw [mailAt, hbox]; rfl
      refine h.move hc hactive.isOpen rfl rfl rfl rfl (h.orderly.setRun hc hactive.isOpen rfl)
        ?_ ?_ ?_ ?_
      · intro k runId hat
        refine sameAt_of_update rfl (fun _ => rfl) ?_ (fun _ => Iff.rfl)
        intro hk
        exact AList.lookup_insert_ne (fun hr => hat ⟨hk, hr⟩)
      · have hactive' : ({ c with drained := c.drained ++ items } : RunCall).IsActive :=
          Or.inl hphase
        refine (callOk_active hactive').mpr ⟨?_, ?_, ?_⟩
        · rw [← hcall.1]
          simp [agentAt, setWorker, setRun]
        · show injected text s i = _
          rw [hcall.2.1, hmail]
          simp [mailAt, setWorker, setRun]
        · show s.Stopped i ↔ _
          rw [hcall.2.2]
          simp [Marked, setWorker, setRun]
      · intro j hj
        have hj' : s.agentAt c.worker c.runId = some j := by
          rw [← hj]
          simp [agentAt, setWorker, setRun]
        rw [hcall.1, Option.some.injEq] at hj'
        exact ⟨hj'.symm, Or.inl hphase⟩
      · intro _ hnone
        have hnone' : s.agentAt c.worker c.runId = none := by
          rw [← hnone]
          simp [agentAt, setWorker, setRun]
        rw [hcall.1] at hnone'
        cases hnone'

theorem askEnds (h : Tracked text s) (hc : s.runs[i]? = some c) (hphase : c.phase = .active)
    (answer : String) (error : Option String) :
    Tracked text (s.setRun i { c with phase := .asked answer error }) := by
  have hactive : c.IsActive := Or.inl hphase
  have hactive' : ({ c with phase := .asked answer error } : RunCall).IsActive :=
    Or.inr ⟨answer, error, rfl⟩
  have hcall := (callOk_active hactive).mp (h.calls i c hc)
  refine h.move hc hactive.isOpen rfl rfl rfl rfl (h.orderly.setRun hc hactive.isOpen rfl)
    (fun _ _ _ => ⟨rfl, rfl, Iff.rfl⟩) ((callOk_active hactive').mpr hcall) ?_ (h.marks _ _)
  intro j hj
  have hj' : s.agentAt c.worker c.runId = some j := hj
  rw [hcall.1, Option.some.injEq] at hj'
  exact ⟨hj'.symm, hactive'⟩

theorem close (h : Tracked text s) (hc : s.runs[i]? = some c) {answer : String}
    {error : Option String} (hphase : c.phase = .asked answer error) :
    Tracked text (s.close i c answer error) := by
  have hactive : c.IsActive := Or.inr ⟨answer, error, hphase⟩
  have hcall := (callOk_active hactive).mp (h.calls i c hc)
  have hagent : (s.close i c answer error).agentAt c.worker c.runId = none := by
    simp [agentAt, ControlSystem.close, setWorker, setRun]
  refine h.move hc hactive.isOpen rfl rfl rfl rfl (h.orderly.setRun hc hactive.isOpen rfl)
    ?_ ?_ ?_ ?_
  · intro k runId hat
    refine sameAt_of_update rfl ?_ ?_ ?_
    · intro hk
      exact AList.lookup_erase_ne (fun hr => hat ⟨hk, hr⟩)
    · intro hk
      exact AList.lookup_erase_ne (fun hr => hat ⟨hk, hr⟩)
    · intro hk
      have hr : runId ≠ c.runId := fun hr => hat ⟨hk, hr⟩
      simp [hr]
  · refine ⟨?_, ?_⟩
    · show c.drained <+: injected text s i
      rw [hcall.2.1]
      exact List.prefix_append _ _
    · show s.Stopped i ↔ decide (c.runId ∈ (s.workers c.worker).cancelled) = true
      rw [hcall.2.2, decide_eq_true_iff, Marked]
  · intro j hj
    rw [hagent] at hj
    cases hj
  · intro hmarked
    simp [Marked, ControlSystem.close, setWorker, setRun] at hmarked

theorem finalReport_cancelled (runId : String) (wasCancelled : Bool) (answer : String)
    (error : Option String) :
    (finalReport runId wasCancelled answer error).status = .cancelled ↔ wasCancelled = true := by
  cases error <;> cases wasCancelled <;> simp [finalReport]

theorem report (h : Tracked text s) (hc : s.runs[i]? = some c) {wasCancelled : Bool}
    {answer : String} {error : Option String} (hphase : c.phase = .closed wasCancelled answer error) :
    Tracked text (s.report i c wasCancelled answer error) := by
  have hopen : c.IsOpen := isOpen_of_phase hphase (by intro report hr; cases hr)
  have hcall := h.calls i c hc
  rw [CallOk, hphase] at hcall
  refine h.move hc hopen rfl rfl rfl rfl ?_ (fun _ _ _ => ⟨rfl, rfl, Iff.rfl⟩) ?_ ?_ (h.marks _ _)
  · have hdone : ∀ status, Orderly { s.queue with statuses := s.queue.statuses.insert c.runId status }
        (s.runs.set i { c with phase := .reported (finalReport c.runId wasCancelled answer error) }) :=
      fun status => h.orderly.report hc hopen (fun hclosed => hclosed _ rfl) status
    unfold ControlSystem.report
    simp only [setRun]
    split
    · exact hdone .failed
    · exact hdone .completed
  · refine ⟨hcall.1, ?_⟩
    show s.Stopped i ↔ (finalReport c.runId wasCancelled answer error).status = .cancelled
    rw [finalReport_cancelled]
    exact hcall.2
  · intro j hj
    obtain ⟨d, hd, -, hrun, hactive⟩ := h.agents _ _ j hj
    have hij := h.orderly.exclusive j i d c hd hc hactive.isOpen hopen hrun
    subst hij
    rw [hc, Option.some.injEq] at hd
    subst hd
    rcases hactive with hactive | ⟨answer, error, hactive⟩
    all_goals
      rw [hphase] at hactive
      cases hactive

end Call

/-! ### The steps of a poll -/

/-- Steps that touch only the control group of a worker, and the polls. -/
theorem withControls (h : Tracked text s) (hqueue : s'.queue = s.queue) (hruns : s'.runs = s.runs)
    (hhandled : s'.handled = s.handled) {k : Nat} {controls : ControlGroup}
    (hworkers : s'.workers =
      Function.update s.workers k { s.workers k with controls := controls }) :
    Tracked text s' :=
  h.quiet (by rw [hqueue, hruns]; exact h.orderly) hruns hhandled fun _ _ =>
    sameAt_of_update hworkers (fun _ => rfl) (fun _ => rfl) (fun _ => Iff.rfl)

theorem setPoll (h : Tracked text s) (poll : Nat) (p : PollCall P) (phase : PollPhase) :
    Tracked text (s.setPoll poll p phase) :=
  h.quiet h.orderly rfl rfl fun _ _ => ⟨rfl, rfl, Iff.rfl⟩

theorem consume (h : Tracked text s) (k : Nat) : Tracked text (s.consume k) := by
  unfold ControlSystem.consume
  simp only
  split
  · exact h
  · exact h.withControls rfl rfl rfl rfl

theorem claim (h : Tracked text s) (poll : Nat) (p : PollCall P) :
    Tracked text (s.claim poll p) := by
  unfold ControlSystem.claim
  simp only
  split
  · exact h.setPoll poll p _
  · exact h.withControls rfl rfl rfl rfl

theorem ack (h : Tracked text s) (poll : Nat) (p : PollCall P) (result : Bool) :
    Tracked text (s.ack poll p result) :=
  h.withControls rfl rfl rfl rfl

end Tracked

/-! ### The handler -/

theorem effect_activeAgents (worker : AgentRunWorker) (message : ControlMessage P) :
    (effect text worker message).activeAgents = worker.activeAgents := by
  unfold effect
  cases message.type with
  | runInject => rfl
  | approvalResolve => rfl
  | runInterrupt =>
      show (if _ then _ else _ : AgentRunWorker).activeAgents = _
      split <;> rfl
  | runCancel =>
      show (if _ then _ else _ : AgentRunWorker).activeAgents = _
      split <;> rfl

theorem effect_mailboxes_ne (worker : AgentRunWorker) (message : ControlMessage P)
    {runId : String} (h : runId ≠ message.runId) :
    (effect text worker message).mailboxes.lookup runId = worker.mailboxes.lookup runId := by
  unfold effect
  cases message.type with
  | runInject => exact AList.lookup_insert_ne h
  | approvalResolve => rfl
  | runInterrupt =>
      show (if _ then _ else _ : AgentRunWorker).mailboxes.lookup runId = _
      split <;> rfl
  | runCancel =>
      show (if _ then _ else _ : AgentRunWorker).mailboxes.lookup runId = _
      split <;> rfl

/-- The mailbox of the run grows by the text of an inject. -/
theorem effect_mail (worker : AgentRunWorker) (message : ControlMessage P) :
    ((effect text worker message).mailboxes.lookup message.runId).getD [] =
      (worker.mailboxes.lookup message.runId).getD [] ++
        if message.type = .runInject then [text message.payload] else [] := by
  unfold effect
  cases message.type with
  | runInject => simp
  | approvalResolve => simp
  | runInterrupt =>
      show ((if _ then _ else _ : AgentRunWorker).mailboxes.lookup _).getD [] = _
      split <;> simp
  | runCancel =>
      show ((if _ then _ else _ : AgentRunWorker).mailboxes.lookup _).getD [] = _
      split <;> simp

/-- The run is marked by an interrupt or a cancel. -/
theorem mem_effect_cancelled (worker : AgentRunWorker) (message : ControlMessage P)
    (runId : String) :
    runId ∈ (effect text worker message).cancelled ↔
      runId ∈ worker.cancelled ∨ (runId = message.runId ∧ message.Stops) := by
  have hmark : runId ∈ (if message.runId ∈ worker.cancelled then worker
      else { worker with cancelled := worker.cancelled ++ [message.runId] }).cancelled ↔
      runId ∈ worker.cancelled ∨ runId = message.runId := by
    split
    · next hmem =>
        constructor
        · exact Or.inl
        · rintro (h | rfl)
          · exact h
          · exact hmem
    · simp
  unfold effect ControlMessage.Stops
  cases message.type with
  | runInject => simp
  | approvalResolve => simp
  | runInterrupt => simpa using hmark
  | runCancel => simpa using hmark

theorem injected_append (h : Nat × ControlMessage P) (i : Nat)
    (hhandled : s'.handled = s.handled ++ [h]) :
    injected text s' i = injected text s i ++
      if h.1 = i ∧ h.2.type = .runInject then [text h.2.payload] else [] := by
  rw [injected, hhandled, List.filter_append, List.map_append, injected]
  by_cases hmatch : h.1 = i ∧ h.2.type = .runInject
  · simp [hmatch]
  · rw [if_neg hmatch]
    simp [hmatch]

theorem stopped_append (h : Nat × ControlMessage P) (i : Nat)
    (hhandled : s'.handled = s.handled ++ [h]) :
    s'.Stopped i ↔ s.Stopped i ∨ (h.1 = i ∧ h.2.Stops) := by
  rw [Stopped, hhandled, Stopped]
  constructor
  · rintro ⟨message, hmem, hstops⟩
    rcases List.mem_append.mp hmem with hmem | hmem
    · exact Or.inl ⟨message, hmem, hstops⟩
    · rw [List.mem_singleton] at hmem
      subst hmem
      exact Or.inr ⟨rfl, hstops⟩
  · rintro (⟨message, hmem, hstops⟩ | ⟨rfl, hstops⟩)
    · exact ⟨message, List.mem_append_left _ hmem, hstops⟩
    · exact ⟨h.2, List.mem_append_right _ List.mem_cons_self, hstops⟩

/-- The handler's effect on the run it found. -/
theorem Tracked.effect (h : Tracked text s) {k i : Nat} {message : ControlMessage P}
    (hagent : s.agentAt k message.runId = some i) (hqueue : s'.queue = s.queue)
    (hruns : s'.runs = s.runs)
    (hworkers : s'.workers =
      Function.update s.workers k (ControlSystem.effect text (s.workers k) message))
    (hhandled : s'.handled = s.handled ++ [(i, message)]) : Tracked text s' := by
  obtain ⟨c, hc, hk, hrun, hactive⟩ := h.agents k message.runId i hagent
  have hagents : ∀ k' runId, s'.agentAt k' runId = s.agentAt k' runId := by
    intro k' runId
    by_cases hk' : k' = k
    · subst hk'
      rw [agentAt, hworkers, Function.update_self, effect_activeAgents, agentAt]
    · rw [agentAt, hworkers, Function.update_of_ne hk', agentAt]
  have hsame : ∀ k' runId, ¬(k' = k ∧ runId = message.runId) → SameAt s s' k' runId := by
    intro k' runId hat
    refine sameAt_of_update hworkers (fun _ => by rw [effect_activeAgents]) ?_ ?_
    · intro hk'
      exact effect_mailboxes_ne _ _ fun hr => hat ⟨hk', hr⟩
    · intro hk'
      rw [mem_effect_cancelled]
      constructor
      · rintro (hmem | ⟨hr, -⟩)
        · exact hmem
        · exact absurd ⟨hk', hr⟩ hat
      · exact Or.inl
  refine ⟨by rw [hqueue, hruns]; exact h.orderly, ?_, ?_, ?_, ?_⟩
  · intro j d hd
    rw [hruns] at hd
    by_cases hj : j = i
    · subst hj
      rw [hc, Option.some.injEq] at hd
      subst hd
      have hcall := (callOk_active hactive).mp (h.calls j c hc)
      rw [hk, hrun] at hcall
      rw [callOk_active hactive, hk, hrun, hagents]
      refine ⟨hagent, ?_, ?_⟩
      · have hmail : s'.mailAt k message.runId = s.mailAt k message.runId ++
            if message.type = .runInject then [text message.payload] else [] := by
          rw [mailAt, hworkers, Function.update_self, effect_mail, mailAt]
        rw [injected_append _ _ hhandled, hcall.2.1, hmail]
        simp
      · have hmarked : s'.Marked k message.runId ↔
            s.Marked k message.runId ∨ (message.runId = message.runId ∧ message.Stops) := by
          rw [Marked, hworkers, Function.update_self, mem_effect_cancelled, Marked]
        rw [stopped_append _ _ hhandled, hcall.2.2, hmarked]
        simp
    · refine callOk_frame (h.calls j d hd) ?_ ?_ ?_
      · intro hd_active
        refine hsame _ _ ?_
        rintro ⟨-, hr⟩
        exact hj (h.orderly.exclusive j i d c hd hc hd_active.isOpen hactive.isOpen
          (hr.trans hrun.symm))
      · rw [injected_append _ _ hhandled, if_neg (fun hmatch => hj hmatch.1.symm),
          List.append_nil]
      · rw [stopped_append _ _ hhandled]
        constructor
        · rintro (hs | ⟨hij, -⟩)
          · exact hs
          · exact absurd hij.symm hj
        · exact Or.inl
  · intro k' runId j hj
    rw [hagents] at hj
    rw [hruns]
    exact h.agents k' runId j hj
  · intro k' runId hmarked
    rw [hagents]
    by_cases hat : k' = k ∧ runId = message.runId
    · obtain ⟨rfl, rfl⟩ := hat
      rw [hagent]
      simp
    · exact h.marks k' runId ((hsame k' runId hat).marked.mp hmarked)
  · intro entry hentry
    rw [hhandled] at hentry
    rw [hruns]
    rcases List.mem_append.mp hentry with hentry | hentry
    · exact h.past entry hentry
    · rw [List.mem_singleton.mp hentry]
      exact (List.getElem?_eq_some_iff.mp hc).1

theorem Tracked.handle (h : Tracked text s) (poll : Nat) (p : PollCall P)
    (resolverRaises : Bool) : Tracked text (s.handle text poll p resolverRaises) := by
  unfold ControlSystem.handle
  simp only
  split
  · exact h.setPoll poll p _
  · next agent hagent =>
      split
      · exact h.setPoll poll p _
      · exact h.effect hagent rfl rfl rfl rfl

theorem Tracked.apply (h : Tracked text s) (i : ControlStep E P) : Tracked text (s.apply text i) := by
  cases i with
  | enqueue run =>
      exact h.quiet (h.orderly.enqueue run) rfl rfl fun _ _ => ⟨rfl, rfl, Iff.rfl⟩
  | publish message => exact h.quiet h.orderly rfl rfl fun _ _ => ⟨rfl, rfl, Iff.rfl⟩
  | dequeue k => exact h.dequeue k
  | activate call =>
      simp only [ControlSystem.apply]
      split
      · next c hc =>
          split
          · next hphase => exact h.activate hc hphase
          · exact h
      · exact h
  | crash call =>
      simp only [ControlSystem.apply]
      split
      · next c hc =>
          split
          · next hphase => exact h.crash hc hphase
          · exact h
      · exact h
  | drain call =>
      simp only [ControlSystem.apply]
      split
      · next c hc =>
          split
          · next hphase => exact h.drain hc hphase
          · exact h
      · exact h
  | askEnds call answer error =>
      simp only [ControlSystem.apply]
      split
      · next c hc =>
          split
          · next hphase => exact h.askEnds hc hphase answer error
          · exact h
      · exact h
  | close call =>
      simp only [ControlSystem.apply]
      split
      · next c hc =>
          split
          · next answer error hphase => exact h.close hc hphase
          · exact h
      · exact h
  | report call =>
      simp only [ControlSystem.apply]
      split
      · next c hc =>
          split
          · next wasCancelled answer error hphase => exact h.report hc hphase
          · exact h
      · exact h
  | consume k => exact h.consume k
  | claim poll =>
      simp only [ControlSystem.apply]
      split
      · next p hp =>
          split
          · exact h.claim poll p
          · exact h
      · exact h
  | handle poll resolverRaises =>
      simp only [ControlSystem.apply]
      split
      · next p hp =>
          split
          · exact h.handle poll p resolverRaises
          · exact h
      · exact h
  | record poll raises =>
      simp only [ControlSystem.apply]
      split
      · next p hp =>
          split
          · exact h.setPoll poll p _
          · exact h
      · exact h
  | ack poll =>
      simp only [ControlSystem.apply]
      split
      · next p hp =>
          split
          · next result hphase => exact h.ack poll p result
          · exact h
      · exact h

theorem tracked_init : Tracked text ({} : ControlSystem E P) where
  orderly :=
    { nodup := List.nodup_nil
      queued := fun run h => by cases h
      running := fun i c h => by cases h
      exclusive := fun i j c d h => by cases h }
  calls i c h := by cases h
  agents k runId i h := by cases h
  marks k runId h := by cases h
  past h hmem := by cases hmem

variable (text) in
theorem tracked_run (is : List (ControlStep E P)) :
    Tracked text ((controlMachine E text).run {} is) :=
  Machine.run_preserves (m := controlMachine E text) (P := Tracked text)
    (fun _ i h => h.apply i) is tracked_init

/-- A run is queued, its cancellation is published and read by the worker that will
execute it, and the run completes. -/
def cancelWhileQueued : List (ControlStep Unit String) :=
  [.enqueue { runId := "r", payload := () },
    .publish { type := .runCancel, runId := "r", payload := "", controlId := "c" },
    .consume 0, .claim 0, .handle 0 false, .ack 0,
    .dequeue 0, .activate 0, .askEnds 0 "done" none, .close 0, .report 0]

def cancelWhileActive : List (ControlStep Unit String) :=
  [.enqueue { runId := "r", payload := () }, .dequeue 0, .activate 0,
    .publish { type := .runCancel, runId := "r", payload := "", controlId := "c" },
    .consume 0, .claim 0, .handle 0 false, .askEnds 0 "" (some "stopped"), .close 0, .report 0]

end ControlSystem

end Runs
end CodeCub

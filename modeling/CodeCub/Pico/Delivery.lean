import CodeCub.Machine.Run
import Mathlib.Logic.Function.Basic

/-!
# The delivery hub on one event loop

Every channel has a bounded queue and one worker.  A call of `dispatch` or `close_stream`
puts an item into the queue of its channel and waits while that is full; the worker takes
the items out one by one and hands them to the outlet.  What a worker does with an item up
to its first await is part of the step that takes it.

Items are numbered in the order in which their puts completed.  The lists `accepted`,
`taken`, `finished`, `drained`, `attempts` and `chunks` are the record of a run; nothing
reads them.
-/

namespace CodeCub
namespace Pico

structure Source where
  channel : String
  chatId : String
  deriving DecidableEq, Repr

/-- The types of a `Deliverable`; only the text of a delta is read by the hub. -/
inductive Content where
  | toolEvent
  | text
  | mediaOut
  | streamDelta (delta : String)
  | reasoning
  | notice
  deriving DecidableEq, Repr

/-- `type(out).__name__`. -/
def Content.typeName : Content → String
  | .toolEvent => "ToolEvent"
  | .text => "Text"
  | .mediaOut => "MediaOut"
  | .streamDelta _ => "StreamDelta"
  | .reasoning => "Reasoning"
  | .notice => "Notice"

/-- `_is_terminal_deliverable`. -/
def Content.isTerminal : Content → Bool
  | .text => true
  | .mediaOut => true
  | _ => false

structure Deliverable (C : Type) where
  content : Content
  source : Option Source := none
  conversation : C
  deriving DecidableEq, Repr

/-- `_Routed`, of a deliverable whose source is known. -/
structure Routed (C : Type) where
  content : Content
  source : Source
  conversation : C
  deriving DecidableEq, Repr

inductive Item (C : Type) where
  | routed (out : Routed C)
  | streamClose (conversation : C)
  deriving DecidableEq, Repr

structure Entry (C : Type) where
  number : Nat
  channel : String
  item : Item C
  deriving DecidableEq, Repr

/-- What a worker with an item is waiting for: a chunk to be sent, the outlet, the end of
the pause before another attempt, or the sink for failures. -/
inductive Job where
  | chunk
  | deliver (attempt : Nat)
  | backoff (attempt : Nat)
  | report
  deriving DecidableEq, Repr

/-- `gone` when there is no worker task or it is done. -/
inductive OutletWorker (C : Type) where
  | gone
  | idle
  | busy (entry : Entry C) (job : Job)
  deriving DecidableEq, Repr

def OutletWorker.entry? {C : Type} : OutletWorker C → Option (Entry C)
  | .busy entry _ => some entry
  | _ => none

/-- The queue of a channel, its worker and the calls of `wait_idle`. -/
structure Outbox (C : Type) where
  queue : List (Entry C) := []
  worker : OutletWorker C := .gone
  unfinished : Nat := 0
  waiters : List Nat := []
  accepted : List (Entry C) := []
  finished : List (Entry C) := []
  drained : List (Entry C) := []
  attempts : List Nat := []
  deriving DecidableEq, Repr

namespace Outbox

variable {C : Type} (box : Outbox C)

/-- `_OUTLET_QUEUE_MAXSIZE`. -/
def maxsize : Nat := 100

def isFull : Bool := maxsize ≤ box.queue.length

def putNowait (entry : Entry C) : Outbox C :=
  { box with
    queue := box.queue ++ [entry]
    unfinished := box.unfinished + 1
    accepted := box.accepted ++ [entry] }

/-- A worker task is created unless there is a live one. -/
def wake : Outbox C :=
  { box with worker := if box.worker matches .gone then .idle else box.worker }

/-- `task_done` for `count` items: the waiters return when nothing is unfinished. -/
def taskDone (count : Nat) : Outbox C :=
  { box with
    unfinished := box.unfinished - count
    waiters := if box.unfinished - count = 0 then [] else box.waiters }

/-- The worker is done with the item, and goes on or ends. -/
def finish (entry : Entry C) (worker : OutletWorker C) : Outbox C :=
  { box with worker, finished := box.finished ++ [entry] }.taskDone 1

def await (entry : Entry C) (job : Job) : Outbox C := { box with worker := .busy entry job }

/-- The outlet is called. -/
def attempt (entry : Entry C) (attempt : Nat) : Outbox C :=
  { box with worker := .busy entry (.deliver attempt), attempts := box.attempts ++ [entry.number] }

/-- What is queued is thrown away. -/
def drain : Outbox C :=
  { box with queue := [], drained := box.drained ++ box.queue }.taskDone box.queue.length

end Outbox

/-- One call of `send_stream_chunk`. -/
structure Chunk (C : Type) where
  channel : String
  chatId : String
  conversation : C
  delta : String
  done : Bool
  deriving DecidableEq, Repr

/-- A call that waits in `queue.put`. -/
structure Call (C : Type) where
  id : Nat
  channel : String
  item : Item C
  deriving DecidableEq, Repr

/-- `channels` are the keys of `_queues`; `closing` when the workers have been cancelled. -/
structure Hub (C : Type) where
  closed : Bool := false
  closing : Bool := false
  channels : List String := []
  box : String → Outbox C := fun _ => {}
  streamChannel : C → Option String := fun _ => none
  openStreams : C → Option String := fun _ => none
  calls : List (Call C) := []
  called : Nat := 0
  accepted : List (Entry C) := []
  taken : List (Entry C) := []
  chunks : List (Chunk C) := []

/-- The registered outlets, with whether they take chunks. -/
structure HubConfig where
  outlets : String → Option Bool
  sendMaxRetries : Int := 3
  reportsFailures : Bool := false

inductive HubError where
  | runtimeError (text : String)
  | valueError (text : String)
  deriving DecidableEq, Repr

inductive Answer where
  | returned
  | waiting
  | raised (error : HubError)
  deriving DecidableEq, Repr

/-- How a call of the outlet or of a sink ended. -/
inductive OutletEnd where
  | returned
  | terminalDeliveryError
  | failed
  deriving DecidableEq, Repr

namespace Hub

variable {C : Type} [DecidableEq C] (config : HubConfig) (s : Hub C)

def hubClosed : HubError := .runtimeError "delivery hub is closed"

def setBox (channel : String) (box : Outbox C) : Hub C :=
  { s with box := Function.update s.box channel box }

def drain : Hub C := { s with box := fun channel => (s.box channel).drain }

/-! ## The calls -/

def putNowait (channel : String) (item : Item C) : Hub C :=
  let entry := { number := s.accepted.length, channel, item }
  { s.setBox channel ((s.box channel).putNowait entry) with accepted := s.accepted ++ [entry] }

/-- `_put` once the queue has room: a hub that was closed meanwhile takes nothing. -/
def put (channel : String) (item : Item C) : Hub C × Answer :=
  if s.closed then ((s.putNowait channel item).drain, .raised hubClosed)
  else (s.putNowait channel item, .returned)

/-- The call waits for room in the queue. -/
def suspend (channel : String) (item : Item C) : Hub C :=
  { s with calls := s.calls ++ [{ id := s.called, channel, item }], called := s.called + 1 }

def startPut (channel : String) (item : Item C) : Hub C × Answer :=
  if (s.box channel).isFull then (s.suspend channel item, .waiting) else s.put channel item

/-- `_stream_channel.setdefault`. -/
def recordChannel (conversation : C) (channel : String) : Hub C :=
  let channel := (s.streamChannel conversation).getD channel
  { s with streamChannel := Function.update s.streamChannel conversation (some channel) }

/-- `_stream_channel.pop`. -/
def forgetChannel (conversation : C) : Hub C :=
  { s with streamChannel := Function.update s.streamChannel conversation none }

/-- The queue of the channel and its worker. -/
def openChannel (channel : String) : Hub C :=
  { s.setBox channel (s.box channel).wake with
    channels := if channel ∈ s.channels then s.channels else s.channels ++ [channel] }

/-- What `_enqueue` does before the put; the channel of a stream is remembered for its
close. -/
def prepare (out : Deliverable C) (channel : String) : Hub C :=
  if out.content matches .streamDelta _ then
    (s.recordChannel out.conversation channel).openChannel channel
  else s.openChannel channel

/-- `_enqueue`, which is `dispatch` and `post`. -/
def dispatch (out : Deliverable C) : Hub C × Answer :=
  if s.closed then (s, .raised hubClosed)
  else
    match out.source with
    | none =>
        (s, .raised (.valueError ("cannot route a " ++ out.content.typeName ++ " with no source")))
    | some source =>
        match config.outlets source.channel with
        | none => (s, .returned)
        | some _ =>
            (s.prepare out source.channel).startPut source.channel
              (.routed { content := out.content, source, conversation := out.conversation })

def closeStream (conversation : C) : Hub C × Answer :=
  if s.closed then (s, .raised hubClosed)
  else
    match s.streamChannel conversation with
    | none => (s, .returned)
    | some channel =>
        if channel ∈ s.channels then
          (s.forgetChannel conversation).startPut channel (.streamClose conversation)
        else (s.forgetChannel conversation, .returned)

def withoutCall (id : Nat) : Hub C := { s with calls := s.calls.eraseP fun call => call.id = id }

/-- A call goes on, if there is room for its item. -/
def resume (id : Nat) : Hub C × Answer :=
  match s.calls.find? fun call => call.id = id with
  | none => (s, .returned)
  | some call =>
      if (s.box call.channel).isFull then (s, .waiting)
      else (s.withoutCall id).put call.channel call.item

/-- The caller is cancelled while it waits.  A stream that was to be closed is still open
then. -/
def cancelCall (id : Nat) : Hub C :=
  match s.calls.find? fun call => call.id = id with
  | none => s
  | some call =>
      match call.item with
      | .routed _ => s.withoutCall id
      | .streamClose conversation =>
          if s.closed then s.withoutCall id
          else (s.withoutCall id).recordChannel conversation call.channel

def waitIdle (channel : String) : Hub C × Answer :=
  let box := s.box channel
  if channel ∉ s.channels ∨ box.unfinished = 0 then (s, .returned)
  else
    ({ s.setBox channel { box with waiters := box.waiters ++ [s.called] } with
        called := s.called + 1 }, .waiting)

def cancelWait (channel : String) (id : Nat) : Hub C :=
  s.setBox channel
    { s.box channel with waiters := (s.box channel).waiters.filter fun waiter => waiter ≠ id }

/-! ## The workers -/

/-- The worker is done with an item; the loop looks whether the hub is closed. -/
def finish (channel : String) (entry : Entry C) : Hub C :=
  s.setBox channel ((s.box channel).finish entry (if s.closed then .gone else .idle))

def sendChunk (channel : String) (entry : Entry C) (chunk : Chunk C) : Hub C :=
  { s.setBox channel ((s.box channel).await entry .chunk) with chunks := s.chunks ++ [chunk] }

def streaming (channel : String) : Bool := config.outlets channel = some true

/-- `_stream_chunk`; the first delta opens the stream. -/
def streamChunk (channel : String) (entry : Entry C) (out : Routed C) (delta : String) : Hub C :=
  if streaming config channel then
    let chatId := (s.openStreams out.conversation).getD out.source.chatId
    let s := { s with openStreams := Function.update s.openStreams out.conversation (some chatId) }
    s.sendChunk channel entry
      { channel, chatId := out.source.chatId, conversation := out.conversation, delta
        done := false }
  else s.finish channel entry

/-- `_close_stream_chunk`. -/
def closeStreamChunk (channel : String) (entry : Entry C) (conversation : C) : Hub C :=
  match s.openStreams conversation with
  | none => s.finish channel entry
  | some chatId =>
      let s := { s with openStreams := Function.update s.openStreams conversation none }
      if streaming config channel then
        s.sendChunk channel entry { channel, chatId, conversation, delta := "", done := true }
      else s.finish channel entry

/-- `_deliver_with_retry` up to the first call of the outlet.  With a negative number of
retries there is none, and the worker recovers from unpacking no result. -/
def deliverWithRetry (channel : String) (entry : Entry C) : Hub C :=
  if config.sendMaxRetries < 0 then s.finish channel entry
  else s.setBox channel ((s.box channel).attempt entry 0)

def process (channel : String) (entry : Entry C) : Hub C :=
  match entry.item with
  | .streamClose conversation => s.closeStreamChunk config channel entry conversation
  | .routed out =>
      match out.content with
      | .streamDelta delta => s.streamChunk config channel entry out delta
      | _ => s.deliverWithRetry config channel entry

/-- `queue.get`. -/
def take (channel : String) (entry : Entry C) (rest : List (Entry C)) : Hub C :=
  { s.setBox channel { s.box channel with queue := rest } with taken := s.taken ++ [entry] }

/-- The worker of the channel takes the next item. -/
def get (channel : String) : Hub C :=
  match (s.box channel).worker, (s.box channel).queue with
  | .idle, entry :: rest => (s.take channel entry rest).process config channel entry
  | _, _ => s

/-- The item could not be delivered. -/
def drop (channel : String) (entry : Entry C) : Hub C :=
  match entry.item with
  | .routed out =>
      if out.content.isTerminal ∧ config.reportsFailures = true then
        s.setBox channel ((s.box channel).await entry .report)
      else s.finish channel entry
  | .streamClose _ => s.finish channel entry

/-- The call for which the worker waits is back. -/
def outletDone (channel : String) (outletEnd : OutletEnd) : Hub C :=
  match (s.box channel).worker with
  | .busy entry .chunk => s.finish channel entry
  | .busy entry .report => s.finish channel entry
  | .busy entry (.deliver attempt) =>
      match outletEnd with
      | .returned => s.finish channel entry
      | .terminalDeliveryError => s.drop config channel entry
      | .failed =>
          if (attempt : Int) = config.sendMaxRetries then s.drop config channel entry
          else s.setBox channel ((s.box channel).await entry (.backoff (attempt + 1)))
  | _ => s

/-- The pause is over. -/
def retry (channel : String) : Hub C :=
  match (s.box channel).worker with
  | .busy entry (.backoff attempt) => s.setBox channel ((s.box channel).attempt entry attempt)
  | _ => s

/-- The worker ends: it is cancelled, or what it awaits raises no `Exception`. -/
def stop (channel : String) : Hub C :=
  match (s.box channel).worker with
  | .busy entry _ => s.setBox channel ((s.box channel).finish entry .gone)
  | .idle => if s.closing then s.setBox channel { s.box channel with worker := .gone } else s
  | .gone => s

/-! ## The end -/

def aclose : Hub C := { s with closed := true }

def cancelWorkers : Hub C := if s.closed then { s with closing := true } else s

/-- The end of `_finish_close`, when the workers have ended. -/
def finishClose : Hub C :=
  if s.closing ∧ s.channels.all fun channel => (s.box channel).worker matches .gone then
    { s.drain with streamChannel := fun _ => none, openStreams := fun _ => none }
  else s

end Hub

inductive HubStep (C : Type) where
  | dispatch (out : Deliverable C)
  | closeStream (conversation : C)
  | resume (id : Nat)
  | cancelCall (id : Nat)
  | waitIdle (channel : String)
  | cancelWait (channel : String) (id : Nat)
  | get (channel : String)
  | outletDone (channel : String) (outletEnd : OutletEnd)
  | retry (channel : String)
  | stop (channel : String)
  | aclose
  | cancelWorkers
  | finishClose
  deriving DecidableEq, Repr

def Hub.step {C : Type} [DecidableEq C] (config : HubConfig) (s : Hub C) :
    HubStep C → Hub C × Answer
  | .dispatch out => s.dispatch config out
  | .closeStream conversation => s.closeStream conversation
  | .resume id => s.resume id
  | .cancelCall id => (s.cancelCall id, .returned)
  | .waitIdle channel => s.waitIdle channel
  | .cancelWait channel id => (s.cancelWait channel id, .returned)
  | .get channel => (s.get config channel, .returned)
  | .outletDone channel outletEnd => (s.outletDone config channel outletEnd, .returned)
  | .retry channel => (s.retry channel, .returned)
  | .stop channel => (s.stop channel, .returned)
  | .aclose => (s.aclose, .returned)
  | .cancelWorkers => (s.cancelWorkers, .returned)
  | .finishClose => (s.finishClose, .returned)

def hubMachine (C : Type) [DecidableEq C] (config : HubConfig) :
    Machine (Hub C) (HubStep C) Answer where
  step s i := s.step config i

end Pico
end CodeCub

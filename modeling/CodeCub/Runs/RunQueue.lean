import CodeCub.Machine.Run
import CodeCub.Python.Str

/-!
# Run queues

`LocalRunQueue` keeps a deque and a status table in memory.  `RedisStreamRunQueue`
keeps a key per run, set only if absent, and a stream read through one consumer
group; what an instance knows of its own deliveries is in its memory.  Of Redis the
model has what the queue uses: keys, one stream with the group's cursor and its
pending entries, and the dead-letter stream.

A failed run may be enqueued again in memory.  In Redis its key stays, and its entry
stays pending for a reclaim.  This is the only difference a single worker can see, as
long as a message may be delivered at all.
-/

namespace CodeCub
namespace Runs

open Python

/-- A run as it is queued: its id, and whatever else the dictionary holds. -/
structure RunEnvelope (P : Type) where
  runId : String
  payload : P
  deriving DecidableEq, Repr

/-- What `fail` returns. -/
structure FailureReport where
  runId : String
  error : String
  deriving DecidableEq, Repr

/-! ## The queue in memory -/

inductive QueueStatus where
  | queued
  | running
  | completed
  | failed
  deriving DecidableEq, Repr

structure LocalRunQueue (P : Type) where
  pending : List (RunEnvelope P) := []
  statuses : Dict String QueueStatus := ∅

namespace LocalRunQueue

variable {P : Type} (q : LocalRunQueue P)

def enqueue (run : RunEnvelope P) : Bool × LocalRunQueue P :=
  if q.statuses.lookup run.runId ∈ [some .queued, some .running, some .completed] then (false, q)
  else
    (true, { pending := q.pending ++ [run], statuses := q.statuses.insert run.runId .queued })

def dequeue : Option (RunEnvelope P) × LocalRunQueue P :=
  match q.pending with
  | [] => (none, q)
  | run :: rest =>
      (some run, { pending := rest, statuses := q.statuses.insert run.runId .running })

def complete (runId : String) : LocalRunQueue P :=
  { q with statuses := q.statuses.insert runId .completed }

def fail (runId error : String) : FailureReport × LocalRunQueue P :=
  ({ runId, error }, { q with statuses := q.statuses.insert runId .failed })

end LocalRunQueue

/-! ## The queue in Redis -/

structure DeadLetter (P : Type) where
  run : RunEnvelope P
  reason : String
  deriving DecidableEq, Repr

/-- The keys, the stream, and what the consumer group knows of it.  A message id is
the position of its entry; `delivered` is the group's cursor and `pending` its list of
unacknowledged entries. -/
structure RedisStream (P : Type) where
  keys : Dict String String := ∅
  entries : List (RunEnvelope P) := []
  delivered : Nat := 0
  pending : List Nat := []
  deadLetters : List (DeadLetter P) := []

/-- The memory of one `RedisStreamRunQueue` instance. -/
structure Consumer where
  inflight : Dict String Nat := ∅
  deliveries : Dict Nat Nat := ∅

/-- How often this instance has claimed the message. -/
def Consumer.claims (consumer : Consumer) (messageId : Nat) : Nat :=
  (consumer.deliveries.lookup messageId).getD 0

def runKey (stream runId : String) : String := stream ++ ":run:" ++ runId

namespace RedisStream

variable {P : Type} (redis : RedisStream P)

/-- `XREADGROUP ... >` for one entry: the cursor moves and the entry is pending. -/
def read : RedisStream P :=
  { redis with delivered := redis.delivered + 1, pending := redis.pending ++ [redis.delivered] }

def xack (messageId : Nat) : RedisStream P :=
  { redis with pending := redis.pending.filter (· ≠ messageId) }

def deadLetter (run : RunEnvelope P) : RedisStream P :=
  { redis with deadLetters := redis.deadLetters ++ [{ run, reason := "max_deliveries" }] }

def setKey (key value : String) : RedisStream P :=
  { redis with keys := redis.keys.insert key value }

/-- `SET key queued NX`, and the entry if the key was new. -/
def enqueue (stream : String) (run : RunEnvelope P) : Bool × RedisStream P :=
  if (redis.keys.lookup (runKey stream run.runId)).isSome then (false, redis)
  else
    (true, { redis.setKey (runKey stream run.runId) "queued" with
      entries := redis.entries ++ [run] })

/-- `_claim_message`: hand the message out, or dead-letter it when this instance has
claimed it too often. -/
def claimMessage (maxDeliveries : Nat) (consumer : Consumer) (messageId : Nat)
    (run : RunEnvelope P) : Option (RunEnvelope P × Nat) × RedisStream P × Consumer :=
  let consumer :=
    { consumer with deliveries :=
        consumer.deliveries.insert messageId (consumer.claims messageId + 1) }
  if maxDeliveries < consumer.claims messageId then
    (none, (redis.deadLetter run).xack messageId, consumer)
  else
    (some (run, messageId), redis,
      { consumer with inflight := consumer.inflight.insert run.runId messageId })

/-- `dequeue` calls itself as long as it dead-letters what it reads. -/
def dequeueFrom (maxDeliveries : Nat) (redis : RedisStream P) (consumer : Consumer) :
    List (RunEnvelope P) → Option (RunEnvelope P × Nat) × RedisStream P × Consumer
  | [] => (none, redis, consumer)
  | run :: rest =>
      match redis.read.claimMessage maxDeliveries consumer redis.delivered run with
      | (some claimed, redis, consumer) => (some claimed, redis, consumer)
      | (none, redis, consumer) => dequeueFrom maxDeliveries redis consumer rest

def dequeue (maxDeliveries : Nat) (consumer : Consumer) :
    Option (RunEnvelope P × Nat) × RedisStream P × Consumer :=
  dequeueFrom maxDeliveries redis consumer (redis.entries.drop redis.delivered)

/-- `XAUTOCLAIM` for one entry; which stale entry it finds, if any, is Redis's choice
among the pending ones. -/
def reclaimStalePending (maxDeliveries : Nat) (consumer : Consumer) (stale : Option Nat) :
    Option (RunEnvelope P × Nat) × RedisStream P × Consumer :=
  match stale.filter (· ∈ redis.pending) with
  | none => (none, redis, consumer)
  | some messageId =>
      match redis.entries[messageId]? with
      | none => (none, redis, consumer)
      | some run => redis.claimMessage maxDeliveries consumer messageId run

def complete (stream : String) (consumer : Consumer) (runId : String) :
    RedisStream P × Consumer :=
  let acked := match consumer.inflight.lookup runId with
    | some messageId => redis.xack messageId
    | none => redis
  (acked.setKey (runKey stream runId) "completed",
    { consumer with inflight := consumer.inflight.erase runId })

/-- The entry is not acknowledged here, so that it can be reclaimed. -/
def fail (stream runId error : String) : FailureReport × RedisStream P :=
  ({ runId, error }, redis.setKey (runKey stream runId) ("failed:" ++ error))

end RedisStream

/-! ## One worker on both -/

/-- The calls of the `RunQueue` protocol. -/
inductive QueueCall (P : Type)
  | enqueue (run : RunEnvelope P)
  | dequeue
  | complete (runId : String)
  | fail (runId error : String)

/-- What the caller learns: whether a run was accepted, or which run it got. -/
inductive QueueAnswer where
  | accepted (new : Bool)
  | handed (runId : Option String)
  | done
  deriving DecidableEq, Repr

/-- Both queues side by side; the Redis one has a single consumer. -/
structure TwinQueues (P : Type) where
  memory : LocalRunQueue P := {}
  redis : RedisStream P := {}
  consumer : Consumer := {}

namespace TwinQueues

variable {P : Type}

def step (stream : String) (maxDeliveries : Nat) (q : TwinQueues P) :
    QueueCall P → TwinQueues P × QueueAnswer × QueueAnswer
  | .enqueue run =>
      let mem := q.memory.enqueue run
      let red := q.redis.enqueue stream run
      ({ q with memory := mem.2, redis := red.2 }, .accepted mem.1, .accepted red.1)
  | .dequeue =>
      let mem := q.memory.dequeue
      let red := q.redis.dequeue maxDeliveries q.consumer
      ({ memory := mem.2, redis := red.2.1, consumer := red.2.2 },
        .handed (mem.1.map RunEnvelope.runId), .handed (red.1.map fun claimed => claimed.1.runId))
  | .complete runId =>
      let red := q.redis.complete stream q.consumer runId
      ({ memory := q.memory.complete runId, redis := red.1, consumer := red.2 }, .done, .done)
  | .fail runId error =>
      ({ q with memory := (q.memory.fail runId error).2, redis := (q.redis.fail stream runId error).2 },
        .done, .done)

def machine (stream : String) (maxDeliveries : Nat) :
    Machine (TwinQueues P) (QueueCall P) (QueueAnswer × QueueAnswer) where
  step := step stream maxDeliveries

/-- Both queues answer the call alike. -/
def Agrees (stream : String) (maxDeliveries : Nat) (q : TwinQueues P) (call : QueueCall P) : Prop :=
  ((machine stream maxDeliveries).out q call).1 = ((machine stream maxDeliveries).out q call).2

/-- No failed run is enqueued again, and a run is only taken where a message may be
delivered. -/
def Shared (maxDeliveries : Nat) (q : TwinQueues P) : QueueCall P → Prop
  | .enqueue run => q.memory.statuses.lookup run.runId ≠ some .failed
  | .dequeue => q.memory.pending = [] ∨ 1 ≤ maxDeliveries
  | _ => True

/-- The same runs wait in both, the same runs are known to both, and no waiting
message was claimed before. -/
structure InStep (stream : String) (q : TwinQueues P) : Prop where
  waiting : q.memory.pending = q.redis.entries.drop q.redis.delivered
  known : ∀ runId, q.memory.statuses.lookup runId = none ↔
    q.redis.keys.lookup (runKey stream runId) = none
  listed : ∀ run ∈ q.memory.pending, (q.memory.statuses.lookup run.runId).isSome
  cursor : q.redis.delivered ≤ q.redis.entries.length
  unclaimed : ∀ messageId, q.redis.delivered ≤ messageId →
    q.consumer.claims messageId = 0

end TwinQueues

theorem runKey_inj {stream a b : String} : runKey stream a = runKey stream b ↔ a = b := by
  unfold runKey
  exact String.append_right_inj _

theorem Consumer.claims_insert (consumer : Consumer) (inflight : Dict String Nat)
    (messageId count other : Nat) :
    Consumer.claims ⟨inflight, consumer.deliveries.insert messageId count⟩ other =
      if other = messageId then count else consumer.claims other := by
  unfold Consumer.claims
  by_cases h : other = messageId
  · rw [if_pos h, h, AList.lookup_insert]
    rfl
  · rw [if_neg h, AList.lookup_insert_ne h]

namespace RedisStream

variable {P : Type} {redis : RedisStream P} {consumer : Consumer} {run : RunEnvelope P}
  {maxDeliveries messageId : Nat}

/-- The two ways a claim can end. -/
theorem claimMessage_of_lt (h : consumer.claims messageId < maxDeliveries) :
    redis.claimMessage maxDeliveries consumer messageId run =
      (some (run, messageId), redis,
        { inflight := consumer.inflight.insert run.runId messageId
          deliveries := consumer.deliveries.insert messageId (consumer.claims messageId + 1) }) := by
  unfold claimMessage
  simp only [Consumer.claims_insert, if_true]
  rw [if_neg (by omega)]

theorem claimMessage_of_le (h : maxDeliveries ≤ consumer.claims messageId) :
    redis.claimMessage maxDeliveries consumer messageId run =
      (none, (redis.deadLetter run).xack messageId,
        { consumer with deliveries :=
            consumer.deliveries.insert messageId (consumer.claims messageId + 1) }) := by
  unfold claimMessage
  simp only [Consumer.claims_insert, if_true]
  rw [if_pos (by omega)]

/-- Without deliveries everything that is read is dead-lettered. -/
theorem dequeueFrom_zero (redis : RedisStream P) (consumer : Consumer)
    (runs : List (RunEnvelope P)) : (dequeueFrom 0 redis consumer runs).1 = none := by
  induction runs generalizing redis consumer with
  | nil => rfl
  | cons run rest ih =>
      unfold dequeueFrom
      rw [claimMessage_of_le (Nat.zero_le _)]
      exact ih _ _

/-- A message that was never claimed is handed out. -/
theorem dequeue_of_unclaimed {rest : List (RunEnvelope P)}
    (hwaiting : redis.entries.drop redis.delivered = run :: rest)
    (hclaims : consumer.claims redis.delivered = 0) (hmax : 1 ≤ maxDeliveries) :
    redis.dequeue maxDeliveries consumer =
      (some (run, redis.delivered), redis.read,
        { inflight := consumer.inflight.insert run.runId redis.delivered
          deliveries := consumer.deliveries.insert redis.delivered 1 }) := by
  unfold dequeue
  rw [hwaiting]
  unfold dequeueFrom
  rw [claimMessage_of_lt (by omega), hclaims]

end RedisStream

namespace TwinQueues

variable {P : Type} {stream : String} {maxDeliveries : Nat} {q : TwinQueues P}

/-- Marking one run in both tables keeps the known runs the same. -/
theorem known_insert {statuses : Dict String QueueStatus} {keys : Dict String String}
    (h : ∀ runId, statuses.lookup runId = none ↔ keys.lookup (runKey stream runId) = none)
    (marked : String) (status : QueueStatus) (value : String) (runId : String) :
    (statuses.insert marked status).lookup runId = none ↔
      (keys.insert (runKey stream marked) value).lookup (runKey stream runId) = none := by
  by_cases hsame : runId = marked
  · subst hsame
    simp
  · have hkey : runKey stream runId ≠ runKey stream marked := fun h => hsame (runKey_inj.mp h)
    rw [AList.lookup_insert_ne hsame, AList.lookup_insert_ne hkey]
    exact h runId

theorem lookup_insert_isSome {statuses : Dict String QueueStatus} {runId marked : String}
    {status : QueueStatus} (h : (statuses.lookup runId).isSome ∨ runId = marked) :
    ((statuses.insert marked status).lookup runId).isSome := by
  by_cases hsame : runId = marked
  · subst hsame
    simp
  · rw [AList.lookup_insert_ne hsame]
    exact h.resolve_right hsame

/-- Finishing a run, in whatever way, marks it in both tables. -/
theorem InStep.mark (h : InStep stream q) {marked : String} {status : QueueStatus}
    {value : String} {pending : List Nat} {inflight : Dict String Nat} :
    InStep stream
      { memory := { q.memory with statuses := q.memory.statuses.insert marked status }
        redis := { q.redis with
          keys := q.redis.keys.insert (runKey stream marked) value, pending := pending }
        consumer := { q.consumer with inflight := inflight } } where
  waiting := h.waiting
  known := known_insert h.known marked status value
  listed run hrun := lookup_insert_isSome (.inl (h.listed run hrun))
  cursor := h.cursor
  unclaimed := h.unclaimed

/-- An unknown run is accepted by both. -/
theorem InStep.enqueue_new (h : InStep stream q) (maxDeliveries : Nat) {run : RunEnvelope P}
    (hnew : q.memory.statuses.lookup run.runId = none) :
    Agrees stream maxDeliveries q (.enqueue run) ∧
      InStep stream ((machine stream maxDeliveries).next q (.enqueue run)) := by
  have hkey := (h.known run.runId).mp hnew
  have hmemory : q.memory.enqueue run =
      (true, { pending := q.memory.pending ++ [run]
               statuses := q.memory.statuses.insert run.runId .queued }) := by
    simp [LocalRunQueue.enqueue, hnew]
  have hredis : q.redis.enqueue stream run =
      (true, { q.redis.setKey (runKey stream run.runId) "queued" with
        entries := q.redis.entries ++ [run] }) := by
    simp [RedisStream.enqueue, hkey]
  unfold Agrees Machine.out Machine.next machine
  simp only [step, hmemory, hredis]
  refine ⟨trivial, ?_, known_insert h.known _ _ _, ?_, ?_, h.unclaimed⟩
  · show q.memory.pending ++ [run] = (q.redis.entries ++ [run]).drop q.redis.delivered
    rw [List.drop_append_of_le_length h.cursor, h.waiting]
  · intro other hother
    apply lookup_insert_isSome
    rcases List.mem_append.mp hother with hother | hother
    · exact .inl (h.listed other hother)
    · rw [List.mem_singleton.mp hother]
      exact .inr rfl
  · show q.redis.delivered ≤ (q.redis.entries ++ [run]).length
    have := h.cursor
    simp only [List.length_append, List.length_singleton]
    omega

/-- A known run that has not failed is refused by both. -/
theorem InStep.enqueue_known (h : InStep stream q) (maxDeliveries : Nat) {run : RunEnvelope P}
    {status : QueueStatus}
    (hknown : q.memory.statuses.lookup run.runId = some status) (hfailed : status ≠ .failed) :
    Agrees stream maxDeliveries q (.enqueue run) ∧
      (machine stream maxDeliveries).next q (.enqueue run) = q := by
  have hkey : (q.redis.keys.lookup (runKey stream run.runId)).isSome := by
    rw [Option.isSome_iff_ne_none]
    intro hnone
    rw [(h.known run.runId).mpr hnone] at hknown
    cases hknown
  have hmemory : q.memory.enqueue run = (false, q.memory) := by
    cases status <;> simp_all [LocalRunQueue.enqueue]
  have hredis : q.redis.enqueue stream run = (false, q.redis) := by
    simp [RedisStream.enqueue, hkey]
  unfold Agrees Machine.out Machine.next machine
  simp only [step, hmemory, hredis]
  exact ⟨trivial, trivial⟩

/-- A failed run is accepted in memory and refused by Redis. -/
theorem InStep.enqueue_failed (h : InStep stream q) (maxDeliveries : Nat) {run : RunEnvelope P}
    (hfailed : q.memory.statuses.lookup run.runId = some .failed) :
    ¬ Agrees stream maxDeliveries q (.enqueue run) := by
  have hkey : (q.redis.keys.lookup (runKey stream run.runId)).isSome := by
    rw [Option.isSome_iff_ne_none]
    intro hnone
    rw [(h.known run.runId).mpr hnone] at hfailed
    cases hfailed
  unfold Agrees Machine.out machine
  simp [step, LocalRunQueue.enqueue, RedisStream.enqueue, hfailed, hkey]

theorem InStep.dequeue_empty (h : InStep stream q) (maxDeliveries : Nat)
    (hempty : q.memory.pending = []) :
    Agrees stream maxDeliveries q .dequeue ∧
      (machine stream maxDeliveries).next q .dequeue = q := by
  have hwaiting : q.redis.entries.drop q.redis.delivered = [] := by
    rw [← h.waiting, hempty]
  have hmemory : q.memory.dequeue = (none, q.memory) := by
    simp [LocalRunQueue.dequeue, hempty]
  have hredis : q.redis.dequeue maxDeliveries q.consumer = (none, q.redis, q.consumer) := by
    simp [RedisStream.dequeue, hwaiting, RedisStream.dequeueFrom]
  unfold Agrees Machine.out Machine.next machine
  simp only [step, hmemory, hredis]
  exact ⟨rfl, trivial⟩

theorem InStep.dequeue_next (h : InStep stream q) (hmax : 1 ≤ maxDeliveries) {run : RunEnvelope P}
    {rest : List (RunEnvelope P)} (hpending : q.memory.pending = run :: rest) :
    Agrees stream maxDeliveries q .dequeue ∧
      InStep stream ((machine stream maxDeliveries).next q .dequeue) := by
  have hwaiting : q.redis.entries.drop q.redis.delivered = run :: rest := by
    rw [← h.waiting, hpending]
  have hmemory : q.memory.dequeue =
      (some run, { pending := rest
                   statuses := q.memory.statuses.insert run.runId .running }) := by
    simp [LocalRunQueue.dequeue, hpending]
  have hredis := RedisStream.dequeue_of_unclaimed hwaiting
    (h.unclaimed _ (Nat.le_refl _)) hmax
  have hlisted : (q.memory.statuses.lookup run.runId).isSome :=
    h.listed run (by rw [hpending]; exact List.mem_cons_self)
  unfold Agrees Machine.out Machine.next machine
  simp only [step, hmemory, hredis]
  refine ⟨rfl, ?_, ?_, ?_, ?_, ?_⟩
  · show rest = q.redis.entries.drop (q.redis.delivered + 1)
    rw [← List.drop_drop, hwaiting]
    rfl
  · intro runId
    show (q.memory.statuses.insert run.runId .running).lookup runId = none ↔
      q.redis.keys.lookup (runKey stream runId) = none
    rw [← h.known runId]
    by_cases hsame : runId = run.runId
    · subst hsame
      simpa using Option.isSome_iff_ne_none.mp hlisted
    · rw [AList.lookup_insert_ne hsame]
  · intro other hother
    apply lookup_insert_isSome
    exact .inl (h.listed other (by rw [hpending]; exact List.mem_cons_of_mem run hother))
  · show q.redis.delivered + 1 ≤ q.redis.entries.length
    have hlength := congrArg List.length hwaiting
    simp only [List.length_drop, List.length_cons] at hlength
    omega
  · intro messageId hle
    have hlt : q.redis.delivered < messageId := hle
    show Consumer.claims ⟨_, q.consumer.deliveries.insert q.redis.delivered 1⟩ messageId = 0
    rw [Consumer.claims_insert, if_neg (by omega)]
    exact h.unclaimed messageId (by omega)

theorem not_agrees_dequeue_zero (hpending : q.memory.pending ≠ []) :
    ¬ Agrees stream 0 q .dequeue := by
  obtain ⟨run, rest, hpending⟩ := List.exists_cons_of_ne_nil hpending
  have hredis : (q.redis.dequeue 0 q.consumer).1 = none :=
    RedisStream.dequeueFrom_zero q.redis q.consumer _
  unfold Agrees Machine.out machine
  simp [step, LocalRunQueue.dequeue, hpending, hredis]

/-- In step, the two queues agree on a call exactly when it is shared, and such a call
keeps them in step. -/
theorem InStep.agrees_iff (h : InStep stream q) (call : QueueCall P) :
    (Agrees stream maxDeliveries q call ↔ Shared maxDeliveries q call) ∧
      (Shared maxDeliveries q call →
        InStep stream ((machine stream maxDeliveries).next q call)) := by
  cases call with
  | enqueue run =>
      cases hstatus : q.memory.statuses.lookup run.runId with
      | none =>
          obtain ⟨hagrees, hnext⟩ := h.enqueue_new maxDeliveries hstatus
          exact ⟨⟨fun _ => by simp [Shared, hstatus], fun _ => hagrees⟩, fun _ => hnext⟩
      | some status =>
          by_cases hfailed : status = .failed
          · subst hfailed
            have hnot := h.enqueue_failed maxDeliveries hstatus
            exact ⟨⟨fun hagrees => absurd hagrees hnot, fun hshared => absurd hstatus hshared⟩,
              fun hshared => absurd hstatus hshared⟩
          · obtain ⟨hagrees, hnext⟩ :=
              h.enqueue_known maxDeliveries hstatus hfailed
            exact ⟨⟨fun _ => by simpa [Shared, hstatus] using hfailed, fun _ => hagrees⟩,
              fun _ => by rw [hnext]; exact h⟩
  | dequeue =>
      cases hpending : q.memory.pending with
      | nil =>
          obtain ⟨hagrees, hnext⟩ := h.dequeue_empty maxDeliveries hpending
          exact ⟨⟨fun _ => .inl hpending, fun _ => hagrees⟩, fun _ => by rw [hnext]; exact h⟩
      | cons run rest =>
          have hne : q.memory.pending ≠ [] := by simp [hpending]
          by_cases hmax : 1 ≤ maxDeliveries
          · obtain ⟨hagrees, hnext⟩ := h.dequeue_next hmax hpending
            exact ⟨⟨fun _ => .inr hmax, fun _ => hagrees⟩, fun _ => hnext⟩
          · have hzero : maxDeliveries = 0 := by omega
            subst hzero
            have hnot : ¬ Shared 0 q .dequeue := by
              simp [Shared, hpending]
            exact ⟨⟨fun hagrees => absurd hagrees (not_agrees_dequeue_zero hne),
              fun hshared => absurd hshared hnot⟩, fun hshared => absurd hshared hnot⟩
  | complete runId =>
      refine ⟨⟨fun _ => trivial, fun _ => rfl⟩, fun _ => ?_⟩
      unfold Machine.next machine
      cases hinflight : q.consumer.inflight.lookup runId with
      | none =>
          simp only [step, RedisStream.complete, hinflight]
          exact h.mark
      | some messageId =>
          simp only [step, RedisStream.complete, hinflight]
          exact h.mark
  | fail runId error =>
      exact ⟨⟨fun _ => trivial, fun _ => rfl⟩, fun _ => h.mark⟩

theorem inStep_new (stream : String) : InStep stream ({} : TwinQueues P) where
  waiting := rfl
  known _ := by simp
  listed run hrun := absurd hrun List.not_mem_nil
  cursor := Nat.le_refl _
  unclaimed _ _ := rfl

/-- From two empty queues, both give the same answers all along a sequence of calls
exactly when no failed run is enqueued again and runs are only taken where a message
may be delivered. -/
theorem queues_agree_iff (stream : String) (maxDeliveries : Nat) (calls : List (QueueCall P)) :
    (machine stream maxDeliveries).Along (Agrees stream maxDeliveries) ({} : TwinQueues P) calls ↔
      (machine stream maxDeliveries).Along (Shared maxDeliveries) {} calls :=
  Machine.along_congr (P := InStep stream)
    (fun _ call h hagrees => (h.agrees_iff call).2 ((h.agrees_iff call).1.mp hagrees))
    (fun _ call h => (h.agrees_iff call).1) (inStep_new stream)

/-- A run is taken, fails, and is submitted again. -/
def resubmission : List (QueueCall Unit) :=
  [.enqueue ⟨"run-1", ()⟩, .dequeue, .fail "run-1" "timeout", .enqueue ⟨"run-1", ()⟩]

theorem resubmission_disagrees :
    ¬ (machine "codecub:runs" 3).Along (Agrees "codecub:runs" 3) ({} : TwinQueues Unit)
      resubmission := by
  intro h
  have hagrees := h.2.2.2.1
  revert hagrees
  unfold Agrees
  decide

end TwinQueues

end Runs
end CodeCub

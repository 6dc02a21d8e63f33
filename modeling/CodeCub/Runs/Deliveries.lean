import CodeCub.Runs.RunQueue
import Mathlib.Algebra.GroupWithZero.Nat

/-!
# Deliveries over all instances

Several `RedisStreamRunQueue` instances share one stream and group.  Each counts in
its own memory how often it claimed a message, and compares this count with
`max_deliveries`; a restart forgets it.  The bound on all deliveries of a message
together therefore holds exactly in the runs in which nobody reclaims a message that
is used up while its own count is still below the limit.
-/

namespace CodeCub
namespace Runs

open Python

/-- The instances, the stream they share, and every message id handed out so far. -/
structure Fleet (P I : Type) where
  redis : RedisStream P := {}
  consumers : I → Consumer := fun _ => {}
  handouts : List Nat := []

inductive FleetStep (P I : Type)
  | enqueue (run : RunEnvelope P)
  | dequeue (instanceId : I)
  | reclaimStalePending (instanceId : I) (stale : Option Nat)
  | complete (instanceId : I) (runId : String)
  | fail (runId error : String)
  | restart (instanceId : I)

namespace Fleet

variable {P I : Type} [DecidableEq I]

/-- Note what an instance was handed, and what the claim left behind. -/
def serve (fleet : Fleet P I) (instanceId : I)
    (claim : Option (RunEnvelope P × Nat) × RedisStream P × Consumer) : Fleet P I :=
  { redis := claim.2.1
    consumers := Function.update fleet.consumers instanceId claim.2.2
    handouts := fleet.handouts ++ (claim.1.map Prod.snd).toList }

def step (stream : String) (maxDeliveries : Nat) (fleet : Fleet P I) : FleetStep P I → Fleet P I
  | .enqueue run => { fleet with redis := (fleet.redis.enqueue stream run).2 }
  | .dequeue instanceId =>
      fleet.serve instanceId (fleet.redis.dequeue maxDeliveries (fleet.consumers instanceId))
  | .reclaimStalePending instanceId stale =>
      fleet.serve instanceId
        (fleet.redis.reclaimStalePending maxDeliveries (fleet.consumers instanceId) stale)
  | .complete instanceId runId =>
      let done := fleet.redis.complete stream (fleet.consumers instanceId) runId
      { fleet with redis := done.1
                   consumers := Function.update fleet.consumers instanceId done.2 }
  | .fail runId error => { fleet with redis := (fleet.redis.fail stream runId error).2 }
  | .restart instanceId =>
      { fleet with consumers := Function.update fleet.consumers instanceId {} }

def machine (stream : String) (maxDeliveries : Nat) : Machine (Fleet P I) (FleetStep P I) Unit where
  step fleet s := (step stream maxDeliveries fleet s, ())

/-- How often the message was handed out, by any instance. -/
def handed (fleet : Fleet P I) (messageId : Nat) : Nat := fleet.handouts.count messageId

/-- The step takes the message from the group: a first delivery or a reclaim. -/
def Takes (stream : String) (maxDeliveries : Nat) (fleet : Fleet P I) (messageId : Nat) :
    FleetStep P I → Prop
  | .dequeue instanceId =>
      fleet.redis.delivered ≤ messageId ∧
        messageId < ((machine stream maxDeliveries).next fleet (.dequeue instanceId)).redis.delivered
  | .reclaimStalePending _ stale => stale = some messageId ∧ messageId ∈ fleet.redis.pending
  | _ => False

/-- The message is acknowledged, and its run is in the dead-letter stream. -/
def Buried (fleet : Fleet P I) (messageId : Nat) : Prop :=
  messageId ∉ fleet.redis.pending ∧
    ∃ run, fleet.redis.entries[messageId]? = some run ∧
      { run, reason := "max_deliveries" } ∈ fleet.redis.deadLetters

/-- After the step no message was handed out more than `maxDeliveries` times, and one
that the step took although it was used up is in the dead-letter stream. -/
def StepBounded (stream : String) (maxDeliveries : Nat) (fleet : Fleet P I)
    (s : FleetStep P I) : Prop :=
  (∀ messageId, ((machine stream maxDeliveries).next fleet s).handed messageId ≤ maxDeliveries) ∧
    ∀ messageId, Takes stream maxDeliveries fleet messageId s →
      maxDeliveries ≤ fleet.handed messageId →
        ((machine stream maxDeliveries).next fleet s).Buried messageId

/-- A message that is used up is reclaimed only by an instance that has itself claimed
it `maxDeliveries` times since it started. -/
def OwnCount (maxDeliveries : Nat) (fleet : Fleet P I) : FleetStep P I → Prop
  | .reclaimStalePending instanceId (some messageId) =>
      messageId ∈ fleet.redis.pending → maxDeliveries ≤ fleet.handed messageId →
        maxDeliveries ≤ (fleet.consumers instanceId).claims messageId
  | _ => True

/-- What holds between two steps: entries behind the cursor were never touched. -/
structure Tidy (maxDeliveries : Nat) (fleet : Fleet P I) : Prop where
  cursor : fleet.redis.delivered ≤ fleet.redis.entries.length
  read : ∀ messageId ∈ fleet.redis.pending, messageId < fleet.redis.delivered
  unhanded : ∀ messageId, fleet.redis.delivered ≤ messageId → fleet.handed messageId = 0
  unclaimed : ∀ messageId, fleet.redis.delivered ≤ messageId →
    ∀ instanceId, (fleet.consumers instanceId).claims messageId = 0
  bounded : ∀ messageId, fleet.handed messageId ≤ maxDeliveries

end Fleet

/-- Without deliveries, everything that is read goes to the dead letters and is
acknowledged. -/
theorem RedisStream.dequeueFrom_zero_state {P : Type} (redis : RedisStream P)
    (consumer : Consumer) (runs : List (RunEnvelope P))
    (hread : ∀ messageId ∈ redis.pending, messageId < redis.delivered) :
    (dequeueFrom 0 redis consumer runs).2.1 =
        { redis with
          delivered := redis.delivered + runs.length
          deadLetters := redis.deadLetters ++ runs.map (⟨·, "max_deliveries"⟩) } ∧
      ∀ messageId, redis.delivered + runs.length ≤ messageId →
        (dequeueFrom 0 redis consumer runs).2.2.claims messageId = consumer.claims messageId := by
  induction runs generalizing redis consumer with
  | nil => exact ⟨by simp [dequeueFrom], fun _ _ => rfl⟩
  | cons run rest ih =>
      have hacked : ((redis.read).deadLetter run).xack redis.delivered =
          { redis with
            delivered := redis.delivered + 1
            deadLetters := redis.deadLetters ++ [⟨run, "max_deliveries"⟩] } := by
        have hkept : redis.pending.filter (· ≠ redis.delivered) = redis.pending := by
          rw [List.filter_eq_self]
          intro messageId hmem
          have := hread messageId hmem
          simp only [decide_eq_true_eq]
          omega
        simp only [read, deadLetter, xack, List.filter_append, hkept]
        simp
      unfold dequeueFrom
      rw [claimMessage_of_le (Nat.zero_le _), hacked]
      obtain ⟨hstate, hclaims⟩ := ih
        { redis with
          delivered := redis.delivered + 1
          deadLetters := redis.deadLetters ++ [⟨run, "max_deliveries"⟩] }
        { consumer with deliveries :=
            consumer.deliveries.insert redis.delivered (consumer.claims redis.delivered + 1) }
        (fun messageId hmem => Nat.lt_succ_of_lt (hread messageId hmem))
      refine ⟨?_, ?_⟩
      · simp only [hstate, List.length_cons, List.map_cons, List.append_assoc]
        simp only [List.cons_append, List.nil_append, Nat.add_assoc, Nat.add_comm 1]
      · intro messageId hle
        simp only [List.length_cons] at hle
        rw [hclaims messageId (by show redis.delivered + 1 + rest.length ≤ messageId; omega),
          Consumer.claims_insert, if_neg (by omega)]

namespace Fleet

variable {P I : Type} [DecidableEq I] {stream : String} {maxDeliveries : Nat} {fleet : Fleet P I}

theorem claims_update {consumers : I → Consumer} {instanceId : I} {consumer : Consumer}
    {messageId : Nat} (hall : ∀ other, (consumers other).claims messageId = 0)
    (hown : consumer.claims messageId = 0) (other : I) :
    (Function.update consumers instanceId consumer other).claims messageId = 0 := by
  by_cases hsame : other = instanceId
  · subst hsame
    rw [Function.update_self]
    exact hown
  · rw [Function.update_of_ne hsame]
    exact hall other

omit [DecidableEq I] in
/-- A step that hands nothing out and reads nothing. -/
theorem Tidy.quiet (h : Tidy maxDeliveries fleet) {after : Fleet P I}
    (hhandouts : after.handouts = fleet.handouts)
    (hdelivered : after.redis.delivered = fleet.redis.delivered)
    (hentries : fleet.redis.entries.length ≤ after.redis.entries.length)
    (hpending : after.redis.pending ⊆ fleet.redis.pending)
    (hclaims : ∀ messageId, fleet.redis.delivered ≤ messageId →
      ∀ instanceId, (after.consumers instanceId).claims messageId = 0) :
    Tidy maxDeliveries after := by
  have hhanded : ∀ messageId, after.handed messageId = fleet.handed messageId := by
    intro messageId
    unfold handed
    rw [hhandouts]
  refine ⟨?_, ?_, ?_, ?_, ?_⟩
  · rw [hdelivered]
    exact h.cursor.trans hentries
  · intro messageId hmem
    rw [hdelivered]
    exact h.read messageId (hpending hmem)
  · intro messageId hle
    rw [hdelivered] at hle
    rw [hhanded]
    exact h.unhanded messageId hle
  · intro messageId hle
    rw [hdelivered] at hle
    exact hclaims messageId hle
  · intro messageId
    rw [hhanded]
    exact h.bounded messageId

/-- The calls that neither read nor reclaim. -/
theorem Tidy.step_quiet (h : Tidy maxDeliveries fleet) (s : FleetStep P I)
    (hs : match s with
      | .dequeue _ | .reclaimStalePending _ _ => False
      | _ => True) :
    Tidy maxDeliveries ((machine stream maxDeliveries).next fleet s) := by
  cases s with
  | enqueue run =>
      by_cases hknown : (fleet.redis.keys.lookup (runKey stream run.runId)).isSome
      · apply h.quiet <;>
          simp [Machine.next, machine, step, RedisStream.enqueue, hknown]
        exact h.unclaimed
      · apply h.quiet <;>
          simp [Machine.next, machine, step, RedisStream.enqueue, hknown, RedisStream.setKey]
        exact h.unclaimed
  | dequeue _ => exact hs.elim
  | reclaimStalePending _ _ => exact hs.elim
  | complete instanceId runId =>
      apply h.quiet
      · rfl
      · show (fleet.redis.complete stream _ runId).1.delivered = _
        unfold RedisStream.complete
        cases (fleet.consumers instanceId).inflight.lookup runId <;> rfl
      · show _ ≤ (fleet.redis.complete stream _ runId).1.entries.length
        unfold RedisStream.complete
        cases (fleet.consumers instanceId).inflight.lookup runId <;> exact Nat.le_refl _
      · show (fleet.redis.complete stream _ runId).1.pending ⊆ _
        unfold RedisStream.complete
        cases (fleet.consumers instanceId).inflight.lookup runId with
        | none => exact List.Subset.refl _
        | some _ => exact List.filter_subset_self _
      · intro messageId hle
        exact claims_update (h.unclaimed messageId hle) (h.unclaimed messageId hle instanceId)
  | fail runId error =>
      exact h.quiet rfl rfl (Nat.le_refl _) (List.Subset.refl _) h.unclaimed
  | restart instanceId =>
      refine h.quiet rfl rfl (Nat.le_refl _) (List.Subset.refl _) ?_
      intro messageId hle
      exact claims_update (h.unclaimed messageId hle) rfl

omit [DecidableEq I] in
theorem handed_append (redis : RedisStream P) (consumers : I → Consumer) (handouts : List Nat)
    (messageId other : Nat) :
    handed (Fleet.mk redis consumers (handouts ++ [messageId])) other =
      handouts.count other + if other = messageId then 1 else 0 := by
  unfold handed
  rw [List.count_append, List.count_singleton]
  by_cases hsame : other = messageId
  · subst hsame
    simp
  · simp [hsame, Ne.symm hsame]

/-- Nothing new to read. -/
theorem next_dequeue_nil (stream : String) (maxDeliveries : Nat) (instanceId : I)
    (hwaiting : fleet.redis.entries.drop fleet.redis.delivered = []) :
    (machine stream maxDeliveries).next fleet (.dequeue instanceId) = fleet := by
  show fleet.serve instanceId (RedisStream.dequeueFrom _ _ _ _) = _
  rw [hwaiting]
  simp [RedisStream.dequeueFrom, serve]

/-- A new entry goes to the instance that reads it. -/
theorem next_dequeue_cons (stream : String) (h : Tidy maxDeliveries fleet)
    (hmax : 1 ≤ maxDeliveries) (instanceId : I) {run : RunEnvelope P}
    {rest : List (RunEnvelope P)}
    (hwaiting : fleet.redis.entries.drop fleet.redis.delivered = run :: rest) :
    (machine stream maxDeliveries).next fleet (.dequeue instanceId) =
      { redis := fleet.redis.read
        consumers := Function.update fleet.consumers instanceId
          { inflight :=
              (fleet.consumers instanceId).inflight.insert run.runId fleet.redis.delivered
            deliveries :=
              (fleet.consumers instanceId).deliveries.insert fleet.redis.delivered 1 }
        handouts := fleet.handouts ++ [fleet.redis.delivered] } := by
  show fleet.serve instanceId _ = _
  rw [RedisStream.dequeue_of_unclaimed hwaiting (h.unclaimed _ (Nat.le_refl _) instanceId) hmax]
  rfl

theorem Tidy.dequeue_new (stream : String) (h : Tidy maxDeliveries fleet)
    (hmax : 1 ≤ maxDeliveries) (instanceId : I) {run : RunEnvelope P}
    {rest : List (RunEnvelope P)}
    (hwaiting : fleet.redis.entries.drop fleet.redis.delivered = run :: rest) :
    Tidy maxDeliveries ((machine stream maxDeliveries).next fleet (.dequeue instanceId)) := by
  rw [next_dequeue_cons stream h hmax instanceId hwaiting]
  refine ⟨?_, ?_, ?_, ?_, ?_⟩
  · show fleet.redis.delivered + 1 ≤ fleet.redis.entries.length
    have hlength := congrArg List.length hwaiting
    simp only [List.length_drop, List.length_cons] at hlength
    omega
  · intro messageId hmem
    show messageId < fleet.redis.delivered + 1
    rcases List.mem_append.mp hmem with hmem | hmem
    · exact Nat.lt_succ_of_lt (h.read messageId hmem)
    · rw [List.mem_singleton.mp hmem]
      exact Nat.lt_succ_self _
  · intro messageId hle
    have hlt : fleet.redis.delivered < messageId := hle
    rw [handed_append, if_neg (by omega)]
    exact h.unhanded messageId (by omega)
  · intro messageId hle
    have hlt : fleet.redis.delivered < messageId := hle
    refine claims_update (h.unclaimed messageId (by omega)) ?_
    rw [Consumer.claims_insert, if_neg (by omega)]
    exact h.unclaimed messageId (by omega) instanceId
  · intro messageId
    rw [handed_append]
    by_cases hsame : messageId = fleet.redis.delivered
    · have hnew : fleet.handouts.count messageId = 0 :=
        h.unhanded messageId (Nat.le_of_eq hsame.symm)
      rw [if_pos hsame, hnew]
      omega
    · rw [if_neg hsame]
      exact h.bounded messageId

/-- Where nothing may be delivered, the new entries are buried one after the other. -/
theorem next_dequeue_zero (stream : String) (h : Tidy 0 fleet) (instanceId : I) :
    ∃ consumer : Consumer,
      (∀ messageId, fleet.redis.entries.length ≤ messageId → consumer.claims messageId = 0) ∧
      (machine stream 0).next fleet (.dequeue instanceId) =
        { redis := { fleet.redis with
            delivered := fleet.redis.entries.length
            deadLetters := fleet.redis.deadLetters ++
              (fleet.redis.entries.drop fleet.redis.delivered).map (⟨·, "max_deliveries"⟩) }
          consumers := Function.update fleet.consumers instanceId consumer
          handouts := fleet.handouts } := by
  obtain ⟨hstate, hclaims⟩ := RedisStream.dequeueFrom_zero_state fleet.redis
    (fleet.consumers instanceId) (fleet.redis.entries.drop fleet.redis.delivered) h.read
  have hcursor := h.cursor
  have hall : fleet.redis.delivered +
      (fleet.redis.entries.drop fleet.redis.delivered).length = fleet.redis.entries.length := by
    rw [List.length_drop]
    omega
  rw [hall] at hstate hclaims
  refine ⟨(fleet.redis.dequeue 0 (fleet.consumers instanceId)).2.2, ?_, ?_⟩
  · intro messageId hle
    exact (hclaims messageId hle).trans (h.unclaimed messageId (by omega) instanceId)
  · have hnone : (fleet.redis.dequeue 0 (fleet.consumers instanceId)).1 = none :=
      RedisStream.dequeueFrom_zero _ _ _
    show fleet.serve instanceId (fleet.redis.dequeue 0 (fleet.consumers instanceId)) = _
    unfold serve
    rw [hnone, show (fleet.redis.dequeue 0 (fleet.consumers instanceId)).2.1 = _ from hstate]
    simp

theorem Tidy.dequeue_zero (stream : String) (h : Tidy 0 fleet) (instanceId : I) :
    (∀ messageId, Takes stream 0 fleet messageId (.dequeue instanceId) →
        ((machine stream 0).next fleet (.dequeue instanceId)).Buried messageId) ∧
      Tidy 0 ((machine stream 0).next fleet (.dequeue instanceId)) := by
  obtain ⟨consumer, hclaims, hnext⟩ := next_dequeue_zero stream h instanceId
  have hcursor := h.cursor
  have hreads : ((machine stream 0).next fleet (.dequeue instanceId)).redis.delivered =
      fleet.redis.entries.length := by rw [hnext]
  simp only [Takes, hreads]
  rw [hnext]
  refine ⟨?_, ⟨Nat.le_refl _, ?_, ?_, ?_, h.bounded⟩⟩
  · intro messageId htakes
    have hlt : messageId < fleet.redis.entries.length := htakes.2
    refine ⟨?_, fleet.redis.entries[messageId], List.getElem?_eq_getElem hlt, ?_⟩
    · intro hmem
      have := h.read messageId hmem
      omega
    · apply List.mem_append_right
      refine List.mem_map_of_mem (List.mem_drop_iff_getElem.mpr ?_)
      refine ⟨messageId - fleet.redis.delivered, by omega, ?_⟩
      congr 1
      omega
  · intro messageId hmem
    have := h.read messageId hmem
    show messageId < fleet.redis.entries.length
    omega
  · intro messageId hle
    exact h.unhanded messageId (hcursor.trans hle)
  · intro messageId hle
    exact claims_update (h.unclaimed messageId (hcursor.trans hle)) (hclaims messageId hle)

/-- Reading a new entry is within the bound, whatever the limit is. -/
theorem Tidy.dequeue (stream : String) (h : Tidy maxDeliveries fleet) (instanceId : I) :
    StepBounded stream maxDeliveries fleet (.dequeue instanceId) ∧
      Tidy maxDeliveries ((machine stream maxDeliveries).next fleet (.dequeue instanceId)) := by
  by_cases hmax : 1 ≤ maxDeliveries
  · have hnext :
        Tidy maxDeliveries ((machine stream maxDeliveries).next fleet (.dequeue instanceId)) := by
      cases hwaiting : fleet.redis.entries.drop fleet.redis.delivered with
      | nil =>
          rw [next_dequeue_nil stream maxDeliveries instanceId hwaiting]
          exact h
      | cons run rest => exact h.dequeue_new stream hmax instanceId hwaiting
    refine ⟨⟨hnext.bounded, ?_⟩, hnext⟩
    intro messageId htakes hused
    have hnew := h.unhanded messageId htakes.1
    omega
  · have hzero : maxDeliveries = 0 := by omega
    subst hzero
    obtain ⟨hburied, hnext⟩ := h.dequeue_zero stream instanceId
    exact ⟨⟨hnext.bounded, fun messageId htakes _ => hburied messageId htakes⟩, hnext⟩

/-- Redis finds nothing stale. -/
theorem next_reclaim_none (stream : String) (maxDeliveries : Nat) (instanceId : I)
    {stale : Option Nat} (hstale : stale.filter (· ∈ fleet.redis.pending) = none) :
    (machine stream maxDeliveries).next fleet (.reclaimStalePending instanceId stale) = fleet := by
  show fleet.serve instanceId (fleet.redis.reclaimStalePending _ _ _) = _
  unfold RedisStream.reclaimStalePending
  rw [hstale]
  simp [serve]

/-- A pending entry exists, and is claimed by the instance. -/
theorem next_reclaim_some (stream : String) (h : Tidy maxDeliveries fleet) (instanceId : I)
    {messageId : Nat} (hmem : messageId ∈ fleet.redis.pending) :
    ∃ run, fleet.redis.entries[messageId]? = some run ∧
      (machine stream maxDeliveries).next fleet
          (.reclaimStalePending instanceId (some messageId)) =
        fleet.serve instanceId
          (fleet.redis.claimMessage maxDeliveries (fleet.consumers instanceId) messageId run) := by
  have hlt : messageId < fleet.redis.entries.length :=
    Nat.lt_of_lt_of_le (h.read messageId hmem) h.cursor
  refine ⟨fleet.redis.entries[messageId], List.getElem?_eq_getElem hlt, ?_⟩
  show fleet.serve instanceId (fleet.redis.reclaimStalePending _ _ _) = _
  unfold RedisStream.reclaimStalePending
  rw [Option.filter_some, if_pos (by simpa using hmem)]
  simp only [List.getElem?_eq_getElem hlt]

/-- The instance has not used up its own count: the message is handed out once more. -/
theorem Tidy.reclaim_hand (stream : String) (h : Tidy maxDeliveries fleet) (instanceId : I)
    {messageId : Nat} (hmem : messageId ∈ fleet.redis.pending)
    (hcount : (fleet.consumers instanceId).claims messageId < maxDeliveries) :
    ((machine stream maxDeliveries).next fleet
        (.reclaimStalePending instanceId (some messageId))).handed messageId =
          fleet.handed messageId + 1 ∧
      (fleet.handed messageId < maxDeliveries →
        Tidy maxDeliveries ((machine stream maxDeliveries).next fleet
          (.reclaimStalePending instanceId (some messageId)))) := by
  obtain ⟨run, -, hnext⟩ := next_reclaim_some stream h instanceId hmem
  rw [hnext, RedisStream.claimMessage_of_lt hcount]
  refine ⟨by simp [serve, handed], fun hspare => ⟨h.cursor, h.read, ?_, ?_, ?_⟩⟩
  · intro other hle
    have hread := h.read messageId hmem
    have hle : fleet.redis.delivered ≤ other := hle
    show (fleet.handouts ++ [messageId]).count other = 0
    rw [List.count_append, List.count_singleton, if_neg (by simp; omega)]
    exact h.unhanded other hle
  · intro other hle
    have hread := h.read messageId hmem
    have hle : fleet.redis.delivered ≤ other := hle
    refine claims_update (h.unclaimed other hle) ?_
    rw [Consumer.claims_insert, if_neg (by omega)]
    exact h.unclaimed other hle instanceId
  · intro other
    show handed ⟨_, _, fleet.handouts ++ [messageId]⟩ other ≤ maxDeliveries
    rw [handed_append]
    by_cases hsame : other = messageId
    · subst hsame
      rw [if_pos rfl]
      exact hspare
    · rw [if_neg hsame]
      exact h.bounded other

/-- The instance has used up its own count: the message is buried. -/
theorem Tidy.reclaim_bury (stream : String) (h : Tidy maxDeliveries fleet) (instanceId : I)
    {messageId : Nat} (hmem : messageId ∈ fleet.redis.pending)
    (hcount : maxDeliveries ≤ (fleet.consumers instanceId).claims messageId) :
    ((machine stream maxDeliveries).next fleet
        (.reclaimStalePending instanceId (some messageId))).Buried messageId ∧
      Tidy maxDeliveries ((machine stream maxDeliveries).next fleet
        (.reclaimStalePending instanceId (some messageId))) := by
  obtain ⟨run, hrun, hnext⟩ := next_reclaim_some stream h instanceId hmem
  rw [hnext, RedisStream.claimMessage_of_le hcount]
  refine ⟨⟨?_, run, hrun, ?_⟩, h.quiet (by simp [serve]) rfl (Nat.le_refl _) ?_ ?_⟩
  · simp [serve, RedisStream.xack]
  · simp [serve, RedisStream.xack, RedisStream.deadLetter]
  · exact List.filter_subset_self _
  · intro other hle
    have hread := h.read messageId hmem
    refine claims_update (h.unclaimed other hle) ?_
    rw [Consumer.claims_insert, if_neg (by omega)]
    exact h.unclaimed other hle instanceId

/-- A step that stays within the bound exactly when it respects the own count, and then
leaves the fleet tidy. -/
def BoundedByCount (stream : String) (maxDeliveries : Nat) (fleet : Fleet P I)
    (s : FleetStep P I) : Prop :=
  (StepBounded stream maxDeliveries fleet s ↔ OwnCount maxDeliveries fleet s) ∧
    (StepBounded stream maxDeliveries fleet s →
      Tidy maxDeliveries ((machine stream maxDeliveries).next fleet s))

/-- A step that takes nothing over. -/
theorem boundedByCount_of_quiet {s : FleetStep P I} (hown : OwnCount maxDeliveries fleet s)
    (htakes : ∀ messageId, ¬ Takes stream maxDeliveries fleet messageId s)
    (hnext : Tidy maxDeliveries ((machine stream maxDeliveries).next fleet s)) :
    BoundedByCount stream maxDeliveries fleet s :=
  ⟨⟨fun _ => hown, fun _ => ⟨hnext.bounded, fun id h _ => absurd h (htakes id)⟩⟩, fun _ => hnext⟩

omit [DecidableEq I] in
/-- While the instance's own count is not used up, only the fleet's count decides. -/
theorem ownCount_reclaim_iff {instanceId : I} {messageId : Nat}
    (hmem : messageId ∈ fleet.redis.pending)
    (hcount : (fleet.consumers instanceId).claims messageId < maxDeliveries) :
    OwnCount maxDeliveries fleet (.reclaimStalePending instanceId (some messageId)) ↔
      fleet.handed messageId < maxDeliveries := by
  unfold OwnCount
  constructor
  · intro hown
    by_contra hused
    have := hown hmem (by omega)
    omega
  · intro hspare _ hused
    omega

theorem Tidy.bounded_reclaim_hand (h : Tidy maxDeliveries fleet) (instanceId : I) {messageId : Nat}
    (hmem : messageId ∈ fleet.redis.pending)
    (hcount : (fleet.consumers instanceId).claims messageId < maxDeliveries) :
    BoundedByCount stream maxDeliveries fleet
      (.reclaimStalePending instanceId (some messageId)) := by
  obtain ⟨hhanded, hnext⟩ := h.reclaim_hand stream instanceId hmem hcount
  have hspare : StepBounded stream maxDeliveries fleet
      (.reclaimStalePending instanceId (some messageId)) →
        fleet.handed messageId < maxDeliveries := by
    intro hbounded
    have := hbounded.1 messageId
    omega
  unfold BoundedByCount
  rw [ownCount_reclaim_iff hmem hcount]
  refine ⟨⟨hspare, fun hlt => ⟨(hnext hlt).bounded, ?_⟩⟩, fun hb => hnext (hspare hb)⟩
  intro other htakes hused
  rw [← Option.some.inj htakes.1] at hused
  omega

theorem Tidy.bounded_reclaim_bury (h : Tidy maxDeliveries fleet) (instanceId : I) {messageId : Nat}
    (hmem : messageId ∈ fleet.redis.pending)
    (hcount : maxDeliveries ≤ (fleet.consumers instanceId).claims messageId) :
    BoundedByCount stream maxDeliveries fleet
      (.reclaimStalePending instanceId (some messageId)) := by
  obtain ⟨hburied, hnext⟩ := h.reclaim_bury stream instanceId hmem hcount
  refine ⟨⟨fun _ _ _ => hcount, fun _ => ⟨hnext.bounded, ?_⟩⟩, fun _ => hnext⟩
  intro other htakes _
  rw [← Option.some.inj htakes.1]
  exact hburied

/-- One step stays within the bound exactly when it respects the own count. -/
theorem Tidy.bounded_iff (h : Tidy maxDeliveries fleet) (s : FleetStep P I) :
    BoundedByCount stream maxDeliveries fleet s := by
  cases s with
  | enqueue run =>
      exact boundedByCount_of_quiet trivial (fun _ h => h) (h.step_quiet (.enqueue run) trivial)
  | complete instanceId runId =>
      exact boundedByCount_of_quiet trivial (fun _ h => h)
        (h.step_quiet (.complete instanceId runId) trivial)
  | fail runId error =>
      exact boundedByCount_of_quiet trivial (fun _ h => h)
        (h.step_quiet (.fail runId error) trivial)
  | restart instanceId =>
      exact boundedByCount_of_quiet trivial (fun _ h => h)
        (h.step_quiet (.restart instanceId) trivial)
  | dequeue instanceId =>
      obtain ⟨hbounded, hnext⟩ := h.dequeue stream instanceId
      exact ⟨⟨fun _ => trivial, fun _ => hbounded⟩, fun _ => hnext⟩
  | reclaimStalePending instanceId stale =>
      cases stale with
      | none =>
          refine boundedByCount_of_quiet trivial (fun _ htakes => nomatch htakes.1) ?_
          rw [next_reclaim_none stream maxDeliveries instanceId rfl]
          exact h
      | some messageId =>
          by_cases hmem : messageId ∈ fleet.redis.pending
          · by_cases hcount : (fleet.consumers instanceId).claims messageId < maxDeliveries
            · exact h.bounded_reclaim_hand instanceId hmem hcount
            · exact h.bounded_reclaim_bury instanceId hmem (Nat.not_lt.mp hcount)
          · refine boundedByCount_of_quiet (fun hpending => absurd hpending hmem) ?_ ?_
            · intro other htakes
              rw [← Option.some.inj htakes.1] at htakes
              exact hmem htakes.2
            · rw [next_reclaim_none stream maxDeliveries instanceId (by simp [hmem])]
              exact h

omit [DecidableEq I] in
theorem tidy_new (maxDeliveries : Nat) : Tidy maxDeliveries ({} : Fleet P I) where
  cursor := Nat.le_refl _
  read _ hmem := absurd hmem List.not_mem_nil
  unhanded _ _ := rfl
  unclaimed _ _ _ := rfl
  bounded _ := Nat.zero_le _

/-- All instances together keep the bound all along a run exactly when no instance
reclaims a used-up message below its own count. -/
theorem deliveries_bounded_iff (stream : String) (maxDeliveries : Nat)
    (steps : List (FleetStep P I)) :
    (machine stream maxDeliveries).Along (StepBounded stream maxDeliveries) {} steps ↔
      (machine stream maxDeliveries).Along (OwnCount maxDeliveries) {} steps :=
  Machine.along_congr (P := Tidy maxDeliveries) (fun _ s h hbounded => (h.bounded_iff s).2 hbounded)
    (fun _ s h => (h.bounded_iff s).1) (tidy_new maxDeliveries)

local instance twoConsumers : NeZero 2 := ⟨Nat.succ_ne_zero 1⟩

/-- A worker takes a run three times and then another one takes it. -/
def handover : List (FleetStep Unit (Fin 2)) :=
  [.enqueue ⟨"run-1", ()⟩, .dequeue 0, .reclaimStalePending 0 (some 0),
    .reclaimStalePending 0 (some 0), .reclaimStalePending 1 (some 0)]

theorem handover_exceeds :
    ¬ (machine "codecub:runs" 3).Along (StepBounded "codecub:runs" 3)
      ({} : Fleet Unit (Fin 2)) handover := by
  intro h
  have hbounded := h.2.2.2.2.1.1 0
  revert hbounded
  decide

end Fleet

end Runs
end CodeCub

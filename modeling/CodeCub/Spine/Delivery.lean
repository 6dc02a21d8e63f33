import CodeCub.Machine.Run
import CodeCub.Python.Str

/-!
# Delivery channels

A channel of the `DeliveryHub` is a bounded queue with one worker thread.  The hub's
lock is held from `put_nowait` to the count of a publication, so between the two the
worker may already be at work.  `close` first refuses further messages and then
waits for room for the stop marker, until its grace period ends.

Messages are numbered in the order of their publication, and the number stands for
the future.  What the outlet was asked to deliver and how the futures were resolved
is recorded beside the channel.
-/

namespace CodeCub
namespace Spine

open Python

structure DeliveryMessage (P : Type) where
  channel : String
  eventType : String
  sessionId : String := ""
  runId : String := ""
  payload : P
  stream : Bool := false
  channel_ne : strip channel ≠ ""
  eventType_ne : strip eventType ≠ ""

/-- `_Pending`. -/
structure Pending (P : Type) where
  message : DeliveryMessage P
  future : Nat

structure DeliveryStats where
  published : Nat := 0
  delivered : Nat := 0
  retried : Nat := 0
  failed : Nat := 0
  rejected : Nat := 0
  deriving DecidableEq, Repr

/-- A `DeliveryResult`, or the `DeliveryError` after the last attempt. -/
inductive Resolution
  | result (attempts : Nat)
  | exception (attempts : Nat) (cause : String)
  deriving DecidableEq, Repr

inductive PublishError
  | deliveryError (text : String)
  | deliveryBackpressure (text : String)
  deriving DecidableEq, Repr

/-- One call of `outlet.deliver`. -/
structure Attempt where
  future : Nat
  succeeded : Bool
  deriving DecidableEq, Repr

/-- The queue holds messages and the stop marker (`none`); the worker holds at most
one message, with the attempts that failed so far. -/
structure DeliveryChannel (P : Type) where
  queue : List (Option (Pending P)) := []
  inFlight : Option (Pending P × Nat) := none
  stats : DeliveryStats := {}
  stopped : Bool := false
  /-- A publication has been put but not counted; it holds the hub's lock. -/
  publishing : Bool := false
  closed : Bool := false
  /-- `close` is waiting to put the stop marker. -/
  closing : Bool := false
  accepted : Nat := 0
  attempts : List Attempt := []
  futures : List (Nat × Resolution) := []

inductive DeliveryStep (P : Type)
  | publish (message : DeliveryMessage P)
  | counted
  | get
  | deliver (error : Option String)
  | close
  | putStop
  | graceEnds

namespace DeliveryChannel

variable {P : Type}

def publish (maxQueueSize : Nat) (c : DeliveryChannel P) (message : DeliveryMessage P) :
    DeliveryChannel P × Except PublishError Nat :=
  if c.closed then (c, .error (.deliveryError "delivery hub is closed"))
  else if maxQueueSize ≤ c.queue.length then
    ({ c with stats := { c.stats with rejected := c.stats.rejected + 1 } },
      .error (.deliveryBackpressure ("delivery channel queue is full: " ++ message.channel)))
  else
    ({ c with
        queue := c.queue ++ [some ⟨message, c.accepted⟩]
        accepted := c.accepted + 1
        publishing := true },
      .ok c.accepted)

def counted (c : DeliveryChannel P) : DeliveryChannel P :=
  if c.publishing then
    { c with stats := { c.stats with published := c.stats.published + 1 }, publishing := false }
  else c

/-- `_run` takes the next entry, unless it is busy or has returned. -/
def get (c : DeliveryChannel P) : DeliveryChannel P :=
  match c.stopped, c.inFlight, c.queue with
  | false, none, some pending :: rest => { c with queue := rest, inFlight := some (pending, 0) }
  | false, none, none :: rest => { c with queue := rest, stopped := true }
  | _, _, _ => c

/-- One turn of the loop in `_deliver`, with what the outlet raised. -/
def deliver (maxRetries : Nat) (c : DeliveryChannel P) (error : Option String) :
    DeliveryChannel P :=
  match c.inFlight with
  | none => c
  | some (pending, tried) =>
      let attempts := tried + 1
      match error with
      | some exc =>
          if attempts ≤ maxRetries then
            { c with
              inFlight := some (pending, attempts)
              stats := { c.stats with retried := c.stats.retried + 1 }
              attempts := c.attempts ++ [⟨pending.future, false⟩] }
          else
            { c with
              inFlight := none
              stats := { c.stats with failed := c.stats.failed + 1 }
              attempts := c.attempts ++ [⟨pending.future, false⟩]
              futures := c.futures ++ [(pending.future, .exception attempts exc)] }
      | none =>
          { c with
            inFlight := none
            stats := { c.stats with delivered := c.stats.delivered + 1 }
            attempts := c.attempts ++ [⟨pending.future, true⟩]
            futures := c.futures ++ [(pending.future, .result attempts)] }

def close (c : DeliveryChannel P) : DeliveryChannel P :=
  if c.closed then c else { c with closed := true, closing := true }

def putStop (maxQueueSize : Nat) (c : DeliveryChannel P) : DeliveryChannel P :=
  if c.closing ∧ c.queue.length < maxQueueSize then
    { c with queue := c.queue ++ [none], closing := false }
  else c

/-- The queue stayed full until the deadline. -/
def graceEnds (maxQueueSize : Nat) (c : DeliveryChannel P) : DeliveryChannel P :=
  if c.closing ∧ maxQueueSize ≤ c.queue.length then
    { c with stats := { c.stats with failed := c.stats.failed + 1 }, closing := false }
  else c

/-- `publish` and `close` wait for the hub's lock. -/
def step (maxQueueSize maxRetries : Nat) (c : DeliveryChannel P) :
    DeliveryStep P → DeliveryChannel P × Option (Except PublishError Nat)
  | .publish message =>
      if c.publishing then (c, none)
      else
        let answer := c.publish maxQueueSize message
        (answer.1, some answer.2)
  | .counted => (c.counted, none)
  | .get => (c.get, none)
  | .deliver error => (c.deliver maxRetries error, none)
  | .close => (if c.publishing then c else c.close, none)
  | .putStop => (c.putStop maxQueueSize, none)
  | .graceEnds => (c.graceEnds maxQueueSize, none)

def machine (maxQueueSize maxRetries : Nat) :
    Machine (DeliveryChannel P) (DeliveryStep P) (Option (Except PublishError Nat)) where
  step := step maxQueueSize maxRetries

/-- The messages that still wait in the queue. -/
def queued (c : DeliveryChannel P) : List Nat := c.queue.filterMap (·.map Pending.future)

/-- The message the worker holds. -/
def held (c : DeliveryChannel P) : List Nat := (c.inFlight.map (·.1.future)).toList

/-- What a channel promises of its counters, its outlet and its futures; the counters
only while no publication is half done. -/
structure Conserves (maxRetries : Nat) (c : DeliveryChannel P) : Prop where
  counters : c.publishing = false → c.stats.published =
    c.stats.delivered + c.stats.failed + c.queued.length + c.held.length
  ordered : (c.attempts.map Attempt.future).Pairwise (· ≤ ·)
  retries : ∀ future, (c.attempts.map Attempt.future).count future ≤ maxRetries + 1
  once : (c.futures.map Prod.fst).Nodup
  result : ∀ future, (∃ attempts, (future, Resolution.result attempts) ∈ c.futures) ↔
    ⟨future, true⟩ ∈ c.attempts

/-- No `close` runs out of time on a full queue. -/
def InTime (maxQueueSize : Nat) (c : DeliveryChannel P) : DeliveryStep P → Prop
  | .graceEnds => c.closing = true → c.queue.length < maxQueueSize
  | _ => True

/-- The messages are in the order of their publication: resolved or given up, held,
queued, still to come. -/
structure InOrder (maxRetries : Nat) (c : DeliveryChannel P) : Prop where
  counters : c.stats.published + (if c.publishing then 1 else 0) =
    c.stats.delivered + c.stats.failed + c.queued.length + c.held.length
  waiting : (c.held ++ c.queued ++ [c.accepted]).Pairwise (· < ·)
  attempted : ∀ a ∈ c.attempts, ∀ future ∈ c.queued ++ [c.accepted], a.future < future
  holding : ∀ pending tried, c.inFlight = some (pending, tried) →
    (∀ a ∈ c.attempts, a.future ≤ pending.future) ∧
    (c.attempts.map Attempt.future).count pending.future = tried ∧ tried ≤ maxRetries ∧
    ⟨pending.future, true⟩ ∉ c.attempts
  settled : ∀ r ∈ c.futures, ∀ future ∈ c.held ++ c.queued ++ [c.accepted], r.1 < future
  lock : c.closing = true → c.publishing = false ∧ c.closed = true
  ordered : (c.attempts.map Attempt.future).Pairwise (· ≤ ·)
  retries : ∀ future, (c.attempts.map Attempt.future).count future ≤ maxRetries + 1
  once : (c.futures.map Prod.fst).Nodup
  result : ∀ future, (∃ attempts, (future, Resolution.result attempts) ∈ c.futures) ↔
    ⟨future, true⟩ ∈ c.attempts

variable {maxQueueSize maxRetries : Nat} {c : DeliveryChannel P}

theorem lt_extend {line : List Nat} {last x : Nat} (h : ∀ y ∈ line ++ [last], x < y) :
    ∀ y ∈ line ++ [last] ++ [last + 1], x < y := by
  intro y hy
  rcases List.mem_append.mp hy with hy | hy
  · exact h y hy
  · rw [List.mem_singleton.mp hy]
    exact Nat.lt_succ_of_lt (h last (by simp))

theorem pairwise_extend {line : List Nat} {last : Nat} (h : (line ++ [last]).Pairwise (· < ·)) :
    (line ++ [last] ++ [last + 1]).Pairwise (· < ·) := by
  refine List.pairwise_append.mpr ⟨h, List.pairwise_singleton _ _, ?_⟩
  intro x hx y hy
  rw [List.mem_singleton.mp hy]
  rcases List.mem_append.mp hx with hx | hx
  · exact Nat.lt_succ_of_lt ((List.pairwise_append.mp h).2.2 x hx last (by simp))
  · rw [List.mem_singleton.mp hx]
    exact Nat.lt_succ_self _

theorem InOrder.conserves (h : InOrder maxRetries c) : Conserves maxRetries c where
  counters hquiet := by
    have := h.counters
    rw [hquiet] at this
    simpa using this
  ordered := h.ordered
  retries := h.retries
  once := h.once
  result := h.result

theorem InOrder.publish (h : InOrder maxRetries c) (hlock : c.publishing = false)
    (message : DeliveryMessage P) :
    InOrder maxRetries (c.publish maxQueueSize message).1 := by
  unfold DeliveryChannel.publish
  by_cases hclosed : c.closed = true
  · rw [if_pos hclosed]
    exact h
  · rw [if_neg hclosed]
    by_cases hfull : maxQueueSize ≤ c.queue.length
    · rw [if_pos hfull]
      exact ⟨h.counters, h.waiting, h.attempted, h.holding, h.settled, h.lock, h.ordered,
        h.retries, h.once, h.result⟩
    · rw [if_neg hfull]
      -- the new message takes the number that was next
      have hqueued : queued { c with
          queue := c.queue ++ [some ⟨message, c.accepted⟩]
          accepted := c.accepted + 1
          publishing := true } = c.queued ++ [c.accepted] := by
        simp [queued]
      refine ⟨?_, ?_, ?_, h.holding, ?_, ?_, h.ordered, h.retries, h.once, h.result⟩
      · have hcounters := h.counters
        rw [hlock] at hcounters
        simp only [hqueued, List.length_append, List.length_singleton]
        simp only [held] at hcounters ⊢
        simp at hcounters ⊢
        omega
      · rw [hqueued, ← List.append_assoc]
        exact pairwise_extend h.waiting
      · rw [hqueued]
        intro a ha
        exact lt_extend (h.attempted a ha)
      · rw [hqueued, ← List.append_assoc]
        intro r hr
        exact lt_extend (h.settled r hr)
      · intro hclosing
        exact absurd (h.lock hclosing).2 hclosed

theorem InOrder.counted (h : InOrder maxRetries c) : InOrder maxRetries c.counted := by
  unfold DeliveryChannel.counted
  by_cases hpublishing : c.publishing = true
  · rw [if_pos hpublishing]
    refine ⟨?_, h.waiting, h.attempted, h.holding, h.settled, ?_, h.ordered, h.retries, h.once,
      h.result⟩
    · have hcounters := h.counters
      rw [hpublishing] at hcounters
      exact hcounters
    · intro hclosing
      exact ⟨rfl, (h.lock hclosing).2⟩
  · rw [if_neg hpublishing]
    exact h

theorem InOrder.get (h : InOrder maxRetries c) : InOrder maxRetries c.get := by
  unfold DeliveryChannel.get
  split
  next pending rest _ hidle hqueue =>
    have hheld : c.held = [] := by simp [held, hidle]
    have hqueued : c.queued = pending.future :: rest.filterMap (·.map Pending.future) := by
      simp [queued, hqueue]
    have hwaiting := h.waiting
    have hattempted := h.attempted
    have hsettled := h.settled
    have hcounters := h.counters
    rw [hheld, hqueued] at hwaiting hsettled hcounters
    rw [hqueued] at hattempted
    refine ⟨?_, hwaiting, ?_, ?_, hsettled, h.lock, h.ordered, h.retries, h.once, h.result⟩
    · rw [hcounters]
      simp [held, queued]
      omega
    · intro a ha future hfuture
      exact hattempted a ha future (List.mem_cons_of_mem _ hfuture)
    · intro other tried hother
      cases hother
      have hbelow : ∀ a ∈ c.attempts, a.future < pending.future :=
        fun a ha => hattempted a ha _ (by simp)
      refine ⟨fun a ha => Nat.le_of_lt (hbelow a ha), ?_, Nat.zero_le _, ?_⟩
      · rw [List.count_eq_zero]
        intro hmem
        obtain ⟨a, ha, hsame⟩ := List.mem_map.mp hmem
        have := hbelow a ha
        omega
      · intro hmem
        exact Nat.lt_irrefl _ (hbelow _ hmem)
  next rest _ hidle hqueue =>
    have hqueued : c.queued = queued { c with queue := rest, stopped := true } := by
      simp [queued, hqueue]
    have hwaiting := h.waiting
    have hattempted := h.attempted
    have hsettled := h.settled
    have hcounters := h.counters
    rw [hqueued] at hwaiting hsettled hcounters hattempted
    exact ⟨hcounters, hwaiting, hattempted, h.holding, hsettled, h.lock, h.ordered, h.retries,
      h.once, h.result⟩
  next => exact h

/-- One more attempt at the message the worker holds. -/
theorem InOrder.attempt (h : InOrder maxRetries c) {pending : Pending P} {tried : Nat}
    (hholds : c.inFlight = some (pending, tried)) (succeeded : Bool) :
    (∀ a ∈ c.attempts ++ [Attempt.mk pending.future succeeded],
        ∀ future ∈ c.queued ++ [c.accepted], a.future < future) ∧
      ((c.attempts ++ [Attempt.mk pending.future succeeded]).map Attempt.future).Pairwise
        (· ≤ ·) ∧
      ((c.attempts ++ [Attempt.mk pending.future succeeded]).map Attempt.future).count
        pending.future = tried + 1 ∧
      ∀ future, ((c.attempts ++ [Attempt.mk pending.future succeeded]).map
        Attempt.future).count future ≤ maxRetries + 1 := by
  obtain ⟨hbelow, hcount, htried, -⟩ := h.holding pending tried hholds
  have hheld : c.held = [pending.future] := by simp [held, hholds]
  have hnow : ((c.attempts ++ [Attempt.mk pending.future succeeded]).map Attempt.future).count
      pending.future = tried + 1 := by
    simp [List.count_append, hcount]
  refine ⟨?_, ?_, hnow, ?_⟩
  · intro a ha future hfuture
    rcases List.mem_append.mp ha with ha | ha
    · exact h.attempted a ha future hfuture
    · rw [List.mem_singleton.mp ha]
      have hwaiting := h.waiting
      rw [hheld, List.append_assoc] at hwaiting
      exact (List.pairwise_cons.mp hwaiting).1 future hfuture
  · rw [List.map_append]
    refine List.pairwise_append.mpr ⟨h.ordered, List.pairwise_singleton _ _, ?_⟩
    intro x hx y hy
    obtain ⟨a, ha, rfl⟩ := List.mem_map.mp hx
    rw [List.mem_singleton.mp hy]
    exact hbelow a ha
  · intro future
    by_cases hsame : future = pending.future
    · rw [hsame, hnow]
      omega
    · have hother : ([Attempt.mk pending.future succeeded].map Attempt.future).count future =
          0 := by
        rw [List.count_eq_zero]
        simpa using hsame
      rw [List.map_append, List.count_append, hother]
      exact h.retries future

theorem InOrder.retry (h : InOrder maxRetries c) {pending : Pending P} {tried : Nat}
    (hholds : c.inFlight = some (pending, tried)) (hspare : tried + 1 ≤ maxRetries) :
    InOrder maxRetries
      { c with
        inFlight := some (pending, tried + 1)
        stats := { c.stats with retried := c.stats.retried + 1 }
        attempts := c.attempts ++ [⟨pending.future, false⟩] } := by
  obtain ⟨hattempted, hordered, hcount, hretries⟩ := h.attempt hholds false
  obtain ⟨hbelow, -, -, hnone⟩ := h.holding pending tried hholds
  have hheld : c.held = [pending.future] := by simp [held, hholds]
  have hcounters := h.counters
  have hwaiting := h.waiting
  have hsettled := h.settled
  rw [hheld] at hcounters hwaiting hsettled
  refine ⟨hcounters, hwaiting, hattempted, ?_, hsettled, h.lock, hordered, hretries, h.once, ?_⟩
  · intro other again hother
    cases hother
    refine ⟨?_, hcount, hspare, by simpa using hnone⟩
    intro a ha
    rcases List.mem_append.mp ha with ha | ha
    · exact hbelow a ha
    · rw [List.mem_singleton.mp ha]
  · intro future
    rw [h.result future]
    simp

/-- The worker is done with the message it holds, one way or the other. -/
theorem InOrder.finish (h : InOrder maxRetries c) {pending : Pending P} {tried : Nat}
    (hholds : c.inFlight = some (pending, tried)) {succeeded : Bool} {resolution : Resolution}
    (hresolution : succeeded = true ↔ ∃ attempts, resolution = .result attempts)
    {stats : DeliveryStats} (hpublished : stats.published = c.stats.published)
    (hdone : stats.delivered + stats.failed = c.stats.delivered + c.stats.failed + 1) :
    InOrder maxRetries
      { c with
        inFlight := none
        stats := stats
        attempts := c.attempts ++ [⟨pending.future, succeeded⟩]
        futures := c.futures ++ [(pending.future, resolution)] } := by
  obtain ⟨hattempted, hordered, -, hretries⟩ := h.attempt hholds succeeded
  have hheld : c.held = [pending.future] := by simp [held, hholds]
  have hcounters := h.counters
  have hwaiting := h.waiting
  have hsettled := h.settled
  rw [hheld] at hcounters hwaiting hsettled
  rw [List.append_assoc, List.singleton_append, List.pairwise_cons] at hwaiting
  refine ⟨?_, hwaiting.2, hattempted, (fun _ _ hnone => nomatch hnone), ?_, h.lock, hordered,
    hretries, ?_, ?_⟩
  · show stats.published + _ = stats.delivered + stats.failed + c.queued.length + 0
    rw [hpublished, hcounters, hdone]
    simp only [List.length_singleton]
    omega
  · intro r hr future hfuture
    have hfuture : future ∈ c.queued ++ [c.accepted] := hfuture
    rcases List.mem_append.mp hr with hr | hr
    · exact hsettled r hr future (List.mem_cons_of_mem _ hfuture)
    · rw [List.mem_singleton.mp hr]
      exact hwaiting.1 future hfuture
  · rw [List.map_append]
    refine List.nodup_append.mpr ⟨h.once, List.nodup_singleton _, ?_⟩
    intro x hx y hy
    obtain ⟨r, hr, rfl⟩ := List.mem_map.mp hx
    rw [List.mem_singleton.mp hy]
    exact Nat.ne_of_lt (hsettled r hr _ (by simp))
  · intro future
    have hold := h.result future
    simp only [List.mem_append, List.mem_singleton, exists_or, hold, Prod.mk.injEq,
      Attempt.mk.injEq]
    constructor
    · rintro (hmem | ⟨attempts, hfuture, hresult⟩)
      · exact .inl hmem
      · exact .inr ⟨hfuture, (hresolution.mpr ⟨attempts, hresult.symm⟩).symm⟩
    · rintro (hmem | ⟨hfuture, hsucceeded⟩)
      · exact .inl hmem
      · obtain ⟨attempts, hresult⟩ := hresolution.mp hsucceeded.symm
        exact .inr ⟨attempts, hfuture, hresult.symm⟩

theorem InOrder.deliver (h : InOrder maxRetries c) (error : Option String) :
    InOrder maxRetries (c.deliver maxRetries error) := by
  unfold DeliveryChannel.deliver
  cases hholds : c.inFlight with
  | none => exact h
  | some pair =>
      obtain ⟨pending, tried⟩ := pair
      cases error with
      | none =>
          refine h.finish hholds ?_ rfl ?_
          · simp
          · show c.stats.delivered + 1 + c.stats.failed = _
            omega
      | some exc =>
          by_cases hspare : tried + 1 ≤ maxRetries
          · simp only [if_pos hspare]
            exact h.retry hholds hspare
          · simp only [if_neg hspare]
            refine h.finish hholds ?_ rfl ?_
            · simp
            · show c.stats.delivered + (c.stats.failed + 1) = _
              omega

theorem InOrder.close (h : InOrder maxRetries c) (hlock : c.publishing = false) :
    InOrder maxRetries c.close := by
  unfold DeliveryChannel.close
  by_cases hclosed : c.closed = true
  · rw [if_pos hclosed]
    exact h
  · rw [if_neg hclosed]
    exact ⟨h.counters, h.waiting, h.attempted, h.holding, h.settled, fun _ => ⟨hlock, rfl⟩,
      h.ordered, h.retries, h.once, h.result⟩

theorem InOrder.putStop (h : InOrder maxRetries c) :
    InOrder maxRetries (c.putStop maxQueueSize) := by
  unfold DeliveryChannel.putStop
  by_cases hroom : c.closing = true ∧ c.queue.length < maxQueueSize
  · rw [if_pos hroom]
    have hqueued : c.queued = queued { c with queue := c.queue ++ [none], closing := false } := by
      simp [queued]
    have hwaiting := h.waiting
    have hattempted := h.attempted
    have hsettled := h.settled
    have hcounters := h.counters
    rw [hqueued] at hwaiting hsettled hcounters hattempted
    exact ⟨hcounters, hwaiting, hattempted, h.holding, hsettled, (fun hclosing => nomatch hclosing),
      h.ordered, h.retries, h.once, h.result⟩
  · rw [if_neg hroom]
    exact h

/-- A close that runs out of time counts a failure that no message had. -/
theorem InOrder.graceEnds (h : InOrder maxRetries c) (hclosing : c.closing = true)
    (hfull : maxQueueSize ≤ c.queue.length) :
    ¬ Conserves maxRetries (c.graceEnds maxQueueSize) := by
  intro hconserves
  have hquiet := (h.lock hclosing).1
  have hbefore := h.conserves.counters hquiet
  unfold DeliveryChannel.graceEnds at hconserves
  rw [if_pos ⟨hclosing, hfull⟩] at hconserves
  have hafter : c.stats.published =
      c.stats.delivered + (c.stats.failed + 1) + c.queued.length + c.held.length :=
    hconserves.counters hquiet
  omega

theorem graceEnds_of_inTime (h : InTime maxQueueSize c .graceEnds) :
    c.graceEnds maxQueueSize = c := by
  unfold DeliveryChannel.graceEnds
  rw [if_neg]
  rintro ⟨hclosing, hfull⟩
  have := h hclosing
  omega

theorem InOrder.next (h : InOrder maxRetries c) (s : DeliveryStep P)
    (hs : InTime maxQueueSize c s) :
    InOrder maxRetries ((machine maxQueueSize maxRetries).next c s) := by
  unfold Machine.next machine step
  cases s with
  | publish message =>
      by_cases hlock : c.publishing = true
      · simp only [hlock, if_true]
        exact h
      · simp only [hlock]
        exact h.publish (by simpa using hlock) message
  | counted => exact h.counted
  | get => exact h.get
  | deliver error => exact h.deliver error
  | close =>
      by_cases hlock : c.publishing = true
      · simp only [hlock, if_true]
        exact h
      · simp only [hlock]
        exact h.close (by simpa using hlock)
  | putStop => exact h.putStop
  | graceEnds =>
      show InOrder maxRetries (c.graceEnds maxQueueSize)
      rw [graceEnds_of_inTime hs]
      exact h

theorem InOrder.inTime (h : InOrder maxRetries c) (s : DeliveryStep P)
    (hs : Conserves maxRetries ((machine maxQueueSize maxRetries).next c s)) :
    InTime maxQueueSize c s := by
  cases s with
  | graceEnds =>
      intro hclosing
      by_contra hfull
      exact h.graceEnds hclosing (by omega) hs
  | _ => trivial

theorem inOrder_new (maxRetries : Nat) : InOrder maxRetries ({} : DeliveryChannel P) where
  counters := rfl
  waiting := by simp [held, queued]
  attempted a ha := absurd ha List.not_mem_nil
  holding _ _ hnone := nomatch hnone
  settled r hr := absurd hr List.not_mem_nil
  lock hclosing := nomatch hclosing
  ordered := List.Pairwise.nil
  retries _ := Nat.zero_le _
  once := List.nodup_nil
  result _ := by simp

/-- A channel conserves its messages in every state of a run exactly when no close runs
out of time on a full queue. -/
theorem conserves_iff (maxQueueSize maxRetries : Nat) (steps : List (DeliveryStep P)) :
    (∀ before, before <+: steps →
        Conserves maxRetries ((machine maxQueueSize maxRetries).run {} before)) ↔
      (machine maxQueueSize maxRetries).Along (InTime maxQueueSize) {} steps :=
  Machine.forall_prefix_iff_along_of (P := InOrder maxRetries) (fun _ s h hs => h.next s hs)
    (fun _ h => h.conserves) (fun _ s h hs => h.inTime s hs) (inOrder_new maxRetries)

def greeting : DeliveryMessage Unit where
  channel := "app"
  eventType := "final"
  payload := ()
  channel_ne := by decide
  eventType_ne := by decide

/-- The outlet is still at the first message when the grace period ends, and the second
one fills the queue. -/
def lateClose : List (DeliveryStep Unit) :=
  [.publish greeting, .counted, .get, .publish greeting, .counted, .close, .graceEnds]

theorem lateClose_miscounts :
    ¬ ∀ before, before <+: lateClose →
      Conserves 2 ((machine 1 2).run ({} : DeliveryChannel Unit) before) := by
  intro h
  have hcounters := (h lateClose (List.prefix_refl _)).counters
  revert hcounters
  decide

end DeliveryChannel

end Spine
end CodeCub

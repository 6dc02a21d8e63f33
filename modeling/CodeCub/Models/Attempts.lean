import Mathlib.Data.List.Chain
import CodeCub.Models.Gateway

/-!
# The attempts of one call of the gateway

`codecub/model_gateway.py`: the chain of clients, the permit of a call, and the loop that
tries a client again or hands the call on.  A client is known by its identity, and what
`time.sleep` and the event sink do with what they get is left open.
-/

namespace CodeCub
namespace Models

open Python

/-- `GatewayPolicy`, with what `time.sleep` raises: `pacing` for the delay before the first
attempt, `backoff n` for `retry_base_seconds * 2**n`. -/
structure GatewayPolicy where
  maxRetries : Int := 2
  pacing : Option Failure := none
  backoff : Nat → Option Failure := fun _ => none

/-- `ModelGateway`; `sink` is what the event sink raises for an event. -/
structure ModelGateway (C : Type) where
  primary : C
  fallbacks : List C
  policy : GatewayPolicy := {}
  model : C → Str
  sink : GatewayEvent → Option Failure := fun _ => none
  primary_notMem : primary ∉ fallbacks

structure Call (C V : Type) where
  place : Nat
  client : C
  answer : Except Failure V

/-- What a call does with the permit and with the clients. -/
inductive Act (C V : Type) where
  | acquire
  | call (call : Call C V)
  | release

inductive Outcome (V : Type) where
  | returned (value : V) (completion : Completion)
  | raised (failure : Failure)

/-- The locals of `_invoke`, with what it has done and emitted. -/
structure Tries (C V : Type) where
  client : C
  clientIndex : Nat := 0
  attempt : Nat := 0
  totalAttempts : Nat := 0
  lastError : Str := []
  lastClassification : Option ErrorClassification := none
  acts : List (Act C V) := [.acquire]
  emitted : List GatewayEvent := []

namespace ModelGateway

variable {C V : Type}

/-- The clients that `__init__` makes the chain of. -/
def fallbackChain [DecidableEq C] (fallback : Option C) (fallbacks : List C) : List C :=
  match fallback with
  | none => fallbacks
  | some client => if fallbacks.head? = some client then fallbacks else client :: fallbacks

/-- `ModelGateway.__init__`. -/
def init [DecidableEq C] (primary : C) (policy : GatewayPolicy) (fallback : Option C)
    (fallbacks : List C) (model : C → Str) (sink : GatewayEvent → Option Failure) :
    ModelGateway C where
  primary := primary
  fallbacks := (fallbackChain fallback fallbacks).filter (· ≠ primary)
  policy := policy
  model := model
  sink := sink
  primary_notMem := by simp

variable (gateway : ModelGateway C)

def clients : List C := gateway.primary :: gateway.fallbacks

def completion (tries : Tries C V) : Completion where
  fallbackUsed := 0 < tries.clientIndex
  fallbackFrom := gateway.model gateway.primary
  fallbackTo := if 0 < tries.clientIndex then gateway.model tries.client else []
  retryCount := tries.attempt
  attempts := tries.attempt + 1
  totalAttempts := tries.totalAttempts
  lastTransientError := tries.lastError
  lastErrorClassification := tries.lastClassification
  fallbackChainIndex := tries.clientIndex

def emit (tries : Tries C V) (event : GatewayEvent) : Tries C V :=
  { tries with emitted := tries.emitted ++ [event] }

def retryEvent (tries : Tries C V) (failure : Failure) : GatewayEvent :=
  .retry (tries.attempt + 1) failure.error failure.classification

def fallbackEvent (tries : Tries C V) (next : C) (failure : Failure) : GatewayEvent :=
  .fallback (gateway.model gateway.primary) (gateway.model next) failure.error
    failure.classification (tries.clientIndex + 1)

/-- The same client again, unless the event sink or the delay raises. -/
def retry (tries : Tries C V) (failure : Failure) : Tries C V × Option Failure :=
  match (gateway.sink (retryEvent tries failure)).or (gateway.policy.backoff tries.attempt) with
  | some refused => (emit tries (retryEvent tries failure), some refused)
  | none => ({ emit tries (retryEvent tries failure) with attempt := tries.attempt + 1 }, none)

/-- On to the next client, unless the event sink raises. -/
def handOn (tries : Tries C V) (next : C) (failure : Failure) : Tries C V × Option Failure :=
  match gateway.sink (gateway.fallbackEvent tries next failure) with
  | some refused => (emit tries (gateway.fallbackEvent tries next failure), some refused)
  | none =>
      ({ emit tries (gateway.fallbackEvent tries next failure) with
        clientIndex := tries.clientIndex + 1, client := next, attempt := 0 }, none)

def classified (tries : Tries C V) (failure : Failure) : Tries C V :=
  { tries with lastClassification := some failure.classification }

def noted (tries : Tries C V) (failure : Failure) : Tries C V :=
  { classified tries failure with lastError := failure.error }

/-- The `except` clause: the state it leaves, and the exception that goes on if one does. -/
def afterFailure (tries : Tries C V) (failure : Failure) : Tries C V × Option Failure :=
  if ¬ failure.classification.retryable ∧ ¬ failure.classification.fallbackEligible then
    (classified tries failure, some failure)
  else if failure.classification.retryable ∧
      (tries.attempt : Int) < gateway.policy.maxRetries then
    gateway.retry (noted tries failure) failure
  else if failure.classification.fallbackEligible then
    match gateway.clients[tries.clientIndex + 1]? with
    | some next => gateway.handOn (noted tries failure) next failure
    | none => (noted tries failure, some failure)
  else (noted tries failure, some failure)

/-- The call that the state makes next. -/
def next (tries : Tries C V) (answer : Except Failure V) : Call C V where
  place := tries.clientIndex
  client := tries.client
  answer := answer

/-- The state after its next call. -/
def called (tries : Tries C V) (answer : Except Failure V) : Tries C V :=
  { tries with
    totalAttempts := tries.totalAttempts + 1
    acts := tries.acts ++ [.call (next tries answer)] }

/-- One pass of the loop. -/
def step (tries : Tries C V) (answer : Except Failure V) : Tries C V × Option (Outcome V) :=
  match answer with
  | .ok value =>
      let tries := called tries answer
      (tries, some (.returned value (gateway.completion tries)))
  | .error failure =>
      let after := gateway.afterFailure (called tries answer) failure
      (after.1, after.2.map .raised)

theorem retry_none {tries after : Tries C V} {failure : Failure}
    (h : gateway.retry tries failure = (after, none)) :
    after = { emit tries (retryEvent tries failure) with attempt := tries.attempt + 1 } := by
  rw [retry] at h
  split at h
  · cases h
  · exact (Prod.mk.inj h).1.symm

theorem handOn_none {tries after : Tries C V} {next : C} {failure : Failure}
    (h : gateway.handOn tries next failure = (after, none)) :
    after = { emit tries (gateway.fallbackEvent tries next failure) with
      clientIndex := tries.clientIndex + 1, client := next, attempt := 0 } := by
  rw [handOn] at h
  split at h
  · cases h
  · exact (Prod.mk.inj h).1.symm

/-- What the `except` clause goes on with. -/
theorem afterFailure_none {tries after : Tries C V} {failure : Failure}
    (h : gateway.afterFailure tries failure = (after, none)) :
    after.acts = tries.acts ∧ after.totalAttempts = tries.totalAttempts ∧
      (after.clientIndex = tries.clientIndex ∧ after.client = tries.client ∧
          after.attempt = tries.attempt + 1 ∧ failure.classification.retryable ∧
          (tries.attempt : Int) < gateway.policy.maxRetries ∨
        after.clientIndex = tries.clientIndex + 1 ∧ after.attempt = 0 ∧
          gateway.clients[after.clientIndex]? = some after.client ∧
          failure.classification.fallbackEligible) := by
  rw [afterFailure] at h
  split at h
  · cases h
  · split at h
    · next hretry =>
        rw [gateway.retry_none h]
        exact ⟨rfl, rfl, Or.inl ⟨rfl, rfl, rfl, hretry.1, hretry.2⟩⟩
    · split at h
      · next hfallback =>
          split at h
          · next hnext =>
              rw [gateway.handOn_none h]
              exact ⟨rfl, rfl, Or.inr ⟨rfl, rfl, hnext, hfallback⟩⟩
          · cases h
      · cases h

/-- The exceptions that the event sink and `time.sleep` raise. -/
def Refusal (raised : Failure) : Prop :=
  (∃ event, gateway.sink event = some raised) ∨ ∃ n, gateway.policy.backoff n = some raised

theorem retry_some {tries after : Tries C V} {failure raised : Failure}
    (h : gateway.retry tries failure = (after, some raised)) :
    after = emit tries (retryEvent tries failure) ∧ gateway.Refusal raised := by
  rw [retry] at h
  split at h
  · next hrefused =>
      cases h
      refine ⟨rfl, ?_⟩
      by_cases hsink : gateway.sink (retryEvent tries failure) = none
      · rw [hsink, Option.none_or] at hrefused
        exact Or.inr ⟨_, hrefused⟩
      · obtain ⟨refused, hsink⟩ := Option.ne_none_iff_exists'.mp hsink
        rw [hsink, Option.some_or] at hrefused
        exact Or.inl ⟨_, hsink.trans hrefused⟩
  · cases h

theorem handOn_some {tries after : Tries C V} {next : C} {failure raised : Failure}
    (h : gateway.handOn tries next failure = (after, some raised)) :
    after = emit tries (gateway.fallbackEvent tries next failure) ∧ gateway.Refusal raised := by
  rw [handOn] at h
  split at h
  · next hrefused =>
      cases h
      exact ⟨rfl, Or.inl ⟨_, hrefused⟩⟩
  · cases h

/-- What the `except` clause ends a call with. -/
theorem afterFailure_some {tries after : Tries C V} {failure raised : Failure}
    (h : gateway.afterFailure tries failure = (after, some raised)) :
    after.acts = tries.acts ∧ (raised = failure ∨ gateway.Refusal raised) := by
  rw [afterFailure] at h
  split at h
  · cases h
    exact ⟨rfl, Or.inl rfl⟩
  · split at h
    · obtain ⟨rfl, hrefusal⟩ := gateway.retry_some h
      exact ⟨rfl, Or.inr hrefusal⟩
    · split at h
      · split at h
        · obtain ⟨rfl, hrefusal⟩ := gateway.handOn_some h
          exact ⟨rfl, Or.inr hrefusal⟩
        · cases h
          exact ⟨rfl, Or.inl rfl⟩
      · cases h
        exact ⟨rfl, Or.inl rfl⟩

theorem step_goes_on {tries after : Tries C V} {answer : Except Failure V}
    (h : gateway.step tries answer = (after, none)) :
    ∃ failure, answer = .error failure ∧
      gateway.afterFailure (called tries answer) failure = (after, none) := by
  cases answer with
  | ok value => cases h
  | error failure =>
      refine ⟨failure, rfl, ?_⟩
      rw [step, Prod.mk.injEq, Option.map_eq_none_iff] at h
      exact Prod.ext h.1 h.2

theorem step_ends {tries after : Tries C V} {answer : Except Failure V} {outcome : Outcome V}
    (h : gateway.step tries answer = (after, some outcome)) :
    after.acts = (called tries answer).acts ∧
      ((∃ value, answer = .ok value ∧
          outcome = .returned value (gateway.completion (called tries answer))) ∨
        ∃ failure raised, answer = .error failure ∧ outcome = .raised raised ∧
          (raised = failure ∨ gateway.Refusal raised)) := by
  cases answer with
  | ok value =>
      cases h
      exact ⟨rfl, Or.inl ⟨value, rfl, rfl⟩⟩
  | error failure =>
      rw [step, Prod.mk.injEq, Option.map_eq_some_iff] at h
      obtain ⟨hafter, raised, hraised, rfl⟩ := h
      obtain ⟨hacts, hwhy⟩ := gateway.afterFailure_some (Prod.ext hafter hraised)
      exact ⟨hacts, Or.inr ⟨failure, raised, rfl, rfl, hwhy⟩⟩

/-- The loop, where `answers i` is the outcome of the attempt with number `i`. -/
def loop (answers : Nat → Except Failure V) (tries : Tries C V) : Tries C V × Outcome V :=
  match _hstep : gateway.step tries (answers tries.totalAttempts) with
  | (after, some outcome) => (after, outcome)
  | (after, none) => loop answers after
termination_by (gateway.clients.length - tries.clientIndex,
  (gateway.policy.maxRetries - tries.attempt).toNat)
decreasing_by
  obtain ⟨failure, -, hafter⟩ := gateway.step_goes_on _hstep
  obtain ⟨-, -, ⟨hindex, -, hattempt, -, hlt⟩ | ⟨hindex, -, hclient, -⟩⟩ :=
    gateway.afterFailure_none hafter
  · simp only [called] at hindex hattempt hlt
    rw [Prod.lex_def, hindex, hattempt]
    omega
  · have hlt := List.getElem?_eq_some_iff.mp hclient |>.1
    simp only [called] at hindex
    rw [Prod.lex_def]
    omega

/-- `ModelGateway._invoke`.  The `try` whose `finally` gives the permit back begins after
`_start_request`. -/
def invoke (answers : Nat → Except Failure V) : Tries C V × Outcome V :=
  let start : Tries C V := { client := gateway.primary }
  match gateway.policy.pacing with
  | some refused => (start, .raised refused)
  | none =>
      let ended := gateway.loop answers start
      ({ ended.1 with acts := ended.1.acts ++ [.release] }, ended.2)

theorem loop_goes_on {answers : Nat → Except Failure V} {tries after : Tries C V}
    (h : gateway.step tries (answers tries.totalAttempts) = (after, none)) :
    gateway.loop answers tries = gateway.loop answers after := by
  rw [loop]
  split
  · next hstep =>
      rw [h] at hstep
      cases hstep
  · next hstep =>
      rw [h] at hstep
      cases hstep
      rfl

theorem loop_ends {answers : Nat → Except Failure V} {tries after : Tries C V}
    {outcome : Outcome V}
    (h : gateway.step tries (answers tries.totalAttempts) = (after, some outcome)) :
    gateway.loop answers tries = (after, outcome) := by
  rw [loop]
  split
  · next hstep =>
      rw [h] at hstep
      cases hstep
      rfl
  · next hstep =>
      rw [h] at hstep
      cases hstep

/-! ## The discipline of the calls -/

/-- After the call, the next one may be made at the place. -/
def Leads (call : Call C V) (place : Nat) : Prop :=
  ∃ failure, call.answer = .error failure ∧
    (place = call.place ∧ failure.classification.retryable ∨
      place = call.place + 1 ∧ failure.classification.fallbackEligible)

def callsAt (calls : List (Call C V)) (place : Nat) : Nat :=
  calls.countP fun call => call.place = place

structure Orderly (answers : Nat → Except Failure V) (calls : List (Call C V)) : Prop where
  clients : ∀ call ∈ calls, gateway.clients[call.place]? = some call.client
  start : ∀ call ∈ calls.head?, call.place = 0
  follows : calls.IsChain fun call next => Leads call next.place
  bounded : ∀ place, callsAt calls place ≤ gateway.policy.maxRetries.toNat + 1
  answered : calls.map Call.answer = (List.range calls.length).map answers

/-- The value of the first success with the number of calls, or the exception of the last
call, unless the event sink or a delay has raised one after it. -/
def Concludes (calls : List (Call C V)) (outcome : Outcome V) : Prop :=
  ∃ failed last, calls = failed ++ [last] ∧
    (∀ call ∈ failed, ∃ failure, call.answer = .error failure) ∧
      ((∃ value completion, outcome = .returned value completion ∧ last.answer = .ok value ∧
          completion.totalAttempts = calls.length) ∨
        ∃ raised failure, outcome = .raised raised ∧ last.answer = .error failure ∧
          (raised = failure ∨ gateway.Refusal raised))

/-- The loop before its next call, after `calls`. -/
structure Underway (answers : Nat → Except Failure V) (tries : Tries C V)
    (calls : List (Call C V)) : Prop where
  orderly : gateway.Orderly answers calls
  acts : tries.acts = .acquire :: calls.map .call
  total : tries.totalAttempts = calls.length
  client : gateway.clients[tries.clientIndex]? = some tries.client
  fresh : calls = [] → tries.clientIndex = 0
  leads : ∀ call ∈ calls.getLast?, Leads call tries.clientIndex
  failed : ∀ call ∈ calls, ∃ failure, call.answer = .error failure
  here : callsAt calls tries.clientIndex = tries.attempt
  beyond : ∀ place, tries.clientIndex < place → callsAt calls place = 0
  within : tries.attempt ≤ gateway.policy.maxRetries.toNat

theorem callsAt_append (calls : List (Call C V)) (call : Call C V) (place : Nat) :
    callsAt (calls ++ [call]) place =
      callsAt calls place + if call.place = place then 1 else 0 := by
  rw [callsAt, List.countP_append, List.countP_singleton, callsAt]
  simp only [decide_eq_true_eq]

variable {gateway} {answers : Nat → Except Failure V} {tries after : Tries C V}
  {calls : List (Call C V)}

theorem underway_start :
    gateway.Underway answers ({ client := gateway.primary } : Tries C V) [] where
  orderly :=
    { clients := by simp
      start := by simp
      follows := List.IsChain.nil
      bounded := fun place => Nat.zero_le _
      answered := rfl }
  acts := rfl
  total := rfl
  client := rfl
  fresh := fun _ => rfl
  leads := by simp
  failed := by simp
  here := rfl
  beyond := fun _ _ => rfl
  within := Nat.zero_le _

namespace Underway

/-- The next call keeps the discipline, whatever its outcome. -/
theorem next_orderly (h : gateway.Underway answers tries calls) :
    gateway.Orderly answers (calls ++ [next tries (answers tries.totalAttempts)]) where
  clients := by
    intro call hcall
    rw [List.mem_append, List.mem_singleton] at hcall
    obtain hcall | rfl := hcall
    · exact h.orderly.clients call hcall
    · exact h.client
  start := by
    intro call hcall
    by_cases hcalls : calls = []
    · rw [hcalls, List.nil_append, List.head?_singleton, Option.mem_some_iff] at hcall
      rw [← hcall]
      exact h.fresh hcalls
    · rw [List.head?_append_of_ne_nil _ hcalls] at hcall
      exact h.orderly.start call hcall
  follows := by
    rw [List.isChain_append]
    refine ⟨h.orderly.follows, List.isChain_singleton _, ?_⟩
    intro call hcall following hfollowing
    rw [List.head?_singleton, Option.mem_some_iff] at hfollowing
    rw [← hfollowing]
    exact h.leads call hcall
  bounded := by
    intro place
    have hbound := h.orderly.bounded place
    have hwithin := h.within
    rw [callsAt_append]
    by_cases hplace : tries.clientIndex = place
    · have hhere := h.here
      rw [hplace] at hhere
      rw [next, if_pos hplace]
      omega
    · rw [next, if_neg hplace]
      omega
  answered := by
    rw [List.map_append, h.orderly.answered, List.length_append, List.length_singleton,
      List.range_succ, List.map_append, h.total]
    rfl

/-- A pass that goes on. -/
theorem goes_on (h : gateway.Underway answers tries calls)
    (hstep : gateway.step tries (answers tries.totalAttempts) = (after, none)) :
    gateway.Underway answers after (calls ++ [next tries (answers tries.totalAttempts)]) := by
  obtain ⟨failure, hanswer, hafter⟩ := gateway.step_goes_on hstep
  obtain ⟨hacts, htotal, hplace⟩ := gateway.afterFailure_none hafter
  have hhere := h.here
  have hwithin := h.within
  simp only [called] at hacts htotal hplace
  refine
    { orderly := h.next_orderly
      acts := ?_
      total := ?_
      client := ?_
      fresh := fun hnil => absurd hnil (List.append_ne_nil_of_right_ne_nil _ (List.cons_ne_nil _ _))
      leads := ?_
      failed := ?_
      here := ?_
      beyond := ?_
      within := ?_ }
  · rw [hacts, h.acts, List.map_append, List.cons_append]
    rfl
  · rw [htotal, h.total, List.length_append, List.length_singleton]
  · obtain ⟨hindex, hclient, -⟩ | ⟨-, -, hclient, -⟩ := hplace
    · rw [hindex, hclient]
      exact h.client
    · exact hclient
  · intro call hcall
    rw [List.getLast?_concat, Option.mem_some_iff] at hcall
    rw [← hcall]
    refine ⟨failure, hanswer, ?_⟩
    obtain ⟨hindex, -, -, hretryable, -⟩ | ⟨hindex, -, -, heligible⟩ := hplace
    · exact Or.inl ⟨hindex, hretryable⟩
    · exact Or.inr ⟨hindex, heligible⟩
  · intro call hcall
    rw [List.mem_append, List.mem_singleton] at hcall
    obtain hcall | rfl := hcall
    · exact h.failed call hcall
    · exact ⟨failure, hanswer⟩
  · rw [callsAt_append, next]
    obtain ⟨hindex, -, hattempt, -⟩ | ⟨hindex, hattempt, -⟩ := hplace
    · rw [hindex, if_pos rfl]
      omega
    · have hbeyond := h.beyond after.clientIndex (by omega)
      rw [if_neg (by dsimp only; omega)]
      omega
  · intro place hlt
    have hbeyond := h.beyond place (by omega)
    rw [callsAt_append, next, if_neg (by dsimp only; omega)]
    omega
  · omega

/-- A pass that ends the call. -/
theorem ends (h : gateway.Underway answers tries calls) {outcome : Outcome V}
    (hstep : gateway.step tries (answers tries.totalAttempts) = (after, some outcome)) :
    after.acts =
        .acquire :: (calls ++ [next tries (answers tries.totalAttempts)]).map .call ∧
      gateway.Concludes (calls ++ [next tries (answers tries.totalAttempts)]) outcome := by
  obtain ⟨hacts, hend⟩ := gateway.step_ends hstep
  constructor
  · rw [hacts, called, h.acts, List.map_append, List.cons_append]
    rfl
  · refine ⟨calls, _, rfl, h.failed, ?_⟩
    obtain ⟨value, hanswer, rfl⟩ | ⟨failure, raised, hanswer, rfl, hwhy⟩ := hend
    · refine Or.inl ⟨value, _, rfl, hanswer, ?_⟩
      rw [List.length_append, List.length_singleton, ← h.total]
      rfl
    · exact Or.inr ⟨raised, failure, rfl, hanswer, hwhy⟩

/-- The loop keeps the discipline to its end. -/
theorem loop_orderly (h : gateway.Underway answers tries calls) :
    ∃ made, (gateway.loop answers tries).1.acts = .acquire :: made.map .call ∧
      gateway.Orderly answers made ∧ gateway.Concludes made (gateway.loop answers tries).2 := by
  fun_induction loop gateway answers tries generalizing calls with
  | case1 tries after outcome hstep =>
      obtain ⟨hacts, hconcludes⟩ := h.ends hstep
      exact ⟨_, hacts, h.next_orderly, hconcludes⟩
  | case2 tries after hstep ih => exact ih (h.goes_on hstep)

end Underway

/-- A call whose permit is there makes its calls in the order of the chain, each place at most
once more than the policy's retries, and gives the permit back once, after them. -/
theorem invoke_orderly (gateway : ModelGateway C) (answers : Nat → Except Failure V)
    (h : gateway.policy.pacing = none) :
    ∃ calls, (gateway.invoke answers).1.acts = .acquire :: calls.map .call ++ [.release] ∧
      gateway.Orderly answers calls ∧ gateway.Concludes calls (gateway.invoke answers).2 := by
  obtain ⟨calls, hacts, horderly, hconcludes⟩ :=
    (@underway_start C V gateway answers).loop_orderly
  refine ⟨calls, ?_, horderly, ?_⟩
  · simp only [invoke, h, hacts]
  · simp only [invoke, h]
    exact hconcludes

/-- A client that is tried again once, and answers then. -/
theorem invoke_orderly_retried :
    let gateway : ModelGateway Bool :=
      { primary := false, fallbacks := [true], model := fun _ => [], primary_notMem := by decide }
    let answers : Nat → Except Failure Unit := fun i => if i = 0 then .error reset else .ok ()
    ∃ calls, (gateway.invoke answers).1.acts = .acquire :: calls.map .call ++ [.release] ∧
      gateway.Orderly answers calls ∧ gateway.Concludes calls (gateway.invoke answers).2 :=
  invoke_orderly _ _ rfl

def Act.isCallOf [DecidableEq C] (client : C) : Act C V → Bool
  | .call call => call.client = client
  | _ => false

/-- The client `true` is twice in the chain. -/
def twice (policy : GatewayPolicy) : ModelGateway Bool where
  primary := false
  fallbacks := [true, true]
  policy := policy
  model := fun _ => []
  primary_notMem := by decide

theorem twice_loop_answered :
    ∃ outcome, ((twice { maxRetries := -1 }).loop (fun _ => (.ok () : Except Failure Unit))
        { client := false }) = outcome ∧
      outcome.1.acts = [.acquire, .call ⟨0, false, .ok ()⟩] :=
  ⟨_, loop_ends _ rfl, rfl⟩

theorem twice_loop_failed :
    ∃ outcome, ((twice { maxRetries := 0 }).loop (fun _ => (.error reset : Except Failure Unit))
        { client := false }) = outcome ∧
      outcome.1.acts = [.acquire, .call ⟨0, false, .error reset⟩,
        .call ⟨1, true, .error reset⟩, .call ⟨2, true, .error reset⟩] :=
  ⟨_, (loop_goes_on _ rfl).trans ((loop_goes_on _ rfl).trans (loop_ends _ rfl)), rfl⟩

/-- A client is called although the policy has a negative number of retries; a client that is
in the chain twice is called more often than the policy has retries; and the permit is not
given back when the delay before the first attempt raises. -/
theorem invoke_not_bounded :
    ((twice { maxRetries := -1 }).policy.maxRetries + 1 <
        (((twice { maxRetries := -1 }).invoke fun _ =>
          (.ok () : Except Failure Unit)).1.acts.countP (Act.isCallOf false) : Nat)) ∧
      ((twice { maxRetries := 0 }).policy.maxRetries + 1 <
        (((twice { maxRetries := 0 }).invoke fun _ =>
          (.error reset : Except Failure Unit)).1.acts.countP (Act.isCallOf true) : Nat)) ∧
      ((twice { pacing := some reset }).invoke fun _ =>
        (.ok () : Except Failure Unit)).1.acts = [.acquire] := by
  obtain ⟨answered, hanswered, hacts⟩ := twice_loop_answered
  obtain ⟨failed, hfailed, hfailedActs⟩ := twice_loop_failed
  refine ⟨?_, ?_, rfl⟩
  · show (-1 : Int) + 1 < ((((twice { maxRetries := -1 }).loop (fun _ => .ok ())
      { client := false }).1.acts ++ [Act.release]).countP (Act.isCallOf false) : Nat)
    rw [hanswered, hacts]
    decide
  · show (0 : Int) + 1 < ((((twice { maxRetries := 0 }).loop (fun _ => .error reset)
      { client := false }).1.acts ++ [Act.release]).countP (Act.isCallOf true) : Nat)
    rw [hfailed, hfailedActs]
    decide

end ModelGateway

/-! ## Streamed calls -/

section Streamed

variable {gateway : Gateway} (hprimary : gateway.primary ∉ gateway.fallbacks)

/-- The gateway of a streamed call. -/
def Gateway.streamed : ModelGateway Client where
  primary := gateway.primary
  fallbacks := gateway.fallbacks
  policy := { maxRetries := gateway.maxRetries }
  model := Client.model
  primary_notMem := hprimary

def Attempt.answer (attempt : Attempt) : Except Failure Str :=
  match attempt.failure with
  | none => .ok attempt.text
  | some failure => .error failure

def Outcome.ofEnding : Ending → Outcome Str
  | .returned text completion => .returned text completion
  | .raised failure => .raised failure

/-- The locals of the loop, without what it has passed on. -/
structure Agrees (gateway : Gateway) (call : Invocation) (tries : Tries Client Str) : Prop where
  clientIndex : tries.clientIndex = call.clientIndex
  client : tries.client = call.client gateway
  attempt : tries.attempt = call.attempt
  totalAttempts : tries.totalAttempts = call.totalAttempts
  lastError : tries.lastError = call.lastError
  lastClassification : tries.lastClassification = call.lastClassification

theorem Agrees.completion {call : Invocation} {tries : Tries Client Str}
    (h : Agrees gateway call tries) :
    (Gateway.streamed hprimary).completion tries = call.completion gateway := by
  rw [ModelGateway.completion, Invocation.completion, h.clientIndex, h.client, h.attempt,
    h.totalAttempts, h.lastError, h.lastClassification]
  rfl

theorem Agrees.afterFailure_none {call : Invocation} {tries : Tries Client Str}
    {failure : Failure} (h : Agrees gateway call tries)
    (hafter : call.afterFailure gateway failure = none) :
    ((Gateway.streamed hprimary).afterFailure tries failure).2 = some failure := by
  rw [Invocation.afterFailure] at hafter
  rw [ModelGateway.afterFailure]
  by_cases hfatal : ¬ failure.classification.retryable ∧ ¬ failure.classification.fallbackEligible
  · rw [if_pos hfatal]
  · rw [if_neg hfatal] at hafter ⊢
    by_cases hretry : failure.classification.retryable ∧ call.attempt < gateway.maxRetries
    · rw [if_pos hretry] at hafter
      cases hafter
    · rw [if_neg hretry] at hafter
      have hretry' : ¬ (failure.classification.retryable ∧
          (tries.attempt : Int) < (Gateway.streamed hprimary).policy.maxRetries) := by
        rw [h.attempt]
        exact fun hlt => hretry ⟨hlt.1, Int.ofNat_lt.mp hlt.2⟩
      rw [if_neg hretry']
      by_cases heligible : failure.classification.fallbackEligible
      · have hlast : ¬ call.clientIndex + 1 < gateway.clients.length := by
          intro hlt
          rw [if_pos ⟨heligible, hlt⟩] at hafter
          cases hafter
        have hnone : (Gateway.streamed hprimary).clients[tries.clientIndex + 1]? = none := by
          rw [h.clientIndex]
          exact List.getElem?_eq_none (Nat.le_of_not_lt hlast)
        rw [if_pos heligible, hnone]
      · rw [if_neg heligible]

theorem Agrees.afterFailure_some {call following : Invocation} {tries : Tries Client Str}
    {failure : Failure} (h : Agrees gateway call tries)
    (hafter : call.afterFailure gateway failure = some following) :
    ∃ after, (Gateway.streamed hprimary).afterFailure tries failure = (after, none) ∧
      Agrees gateway following after := by
  rw [Invocation.afterFailure] at hafter
  rw [ModelGateway.afterFailure]
  by_cases hfatal : ¬ failure.classification.retryable ∧ ¬ failure.classification.fallbackEligible
  · rw [if_pos hfatal] at hafter
    cases hafter
  · rw [if_neg hfatal] at hafter ⊢
    by_cases hretry : failure.classification.retryable ∧ call.attempt < gateway.maxRetries
    · rw [if_pos hretry] at hafter
      have hretry' : failure.classification.retryable ∧
          (tries.attempt : Int) < (Gateway.streamed hprimary).policy.maxRetries := by
        rw [h.attempt]
        exact ⟨hretry.1, Int.ofNat_lt.mpr hretry.2⟩
      obtain rfl := Option.some.inj hafter
      rw [if_pos hretry']
      refine ⟨_, rfl, ?_⟩
      exact
        { clientIndex := h.clientIndex
          client := h.client
          attempt := congrArg (· + 1) h.attempt
          totalAttempts := h.totalAttempts
          lastError := rfl
          lastClassification := rfl }
    · rw [if_neg hretry] at hafter
      have hretry' : ¬ (failure.classification.retryable ∧
          (tries.attempt : Int) < (Gateway.streamed hprimary).policy.maxRetries) := by
        rw [h.attempt]
        exact fun hlt => hretry ⟨hlt.1, Int.ofNat_lt.mp hlt.2⟩
      rw [if_neg hretry']
      split at hafter
      · next hnext =>
          have hget : (Gateway.streamed hprimary).clients[tries.clientIndex + 1]? =
              some (gateway.clients.getD (call.clientIndex + 1) gateway.primary) := by
            rw [h.clientIndex, List.getD_eq_getElem?_getD, List.getElem?_eq_getElem hnext.2,
              Option.getD_some]
            exact List.getElem?_eq_getElem hnext.2
          obtain rfl := Option.some.inj hafter
          rw [if_pos hnext.1, hget]
          refine ⟨_, rfl, ?_⟩
          exact
            { clientIndex := congrArg (· + 1) h.clientIndex
              client := rfl
              attempt := rfl
              totalAttempts := h.totalAttempts
              lastError := rfl
              lastClassification := rfl }
      · cases hafter

theorem Agrees.called {call : Invocation} {tries : Tries Client Str} (attempt : Attempt)
    (h : Agrees gateway call tries) :
    Agrees gateway (call.tried attempt) (ModelGateway.called tries attempt.answer) where
  clientIndex := h.clientIndex
  client := h.client
  attempt := h.attempt
  totalAttempts := congrArg (· + 1) h.totalAttempts
  lastError := h.lastError
  lastClassification := h.lastClassification

theorem Agrees.step_some {call final : Invocation} {tries : Tries Client Str}
    {attempt : Attempt} {ending : Ending} (h : Agrees gateway call tries)
    (hstep : call.step gateway attempt = (final, some ending)) :
    ∃ after, (Gateway.streamed hprimary).step tries attempt.answer =
      (after, some (.ofEnding ending)) := by
  rw [Invocation.step] at hstep
  have hcalled := h.called attempt
  cases hfailure : attempt.failure with
  | none =>
      have hanswer : attempt.answer = .ok attempt.text := by rw [Attempt.answer, hfailure]
      simp only [hfailure, Prod.mk.injEq, Option.some.injEq] at hstep
      rw [hanswer] at hcalled ⊢
      rw [ModelGateway.step, hcalled.completion, ← hstep.2]
      exact ⟨_, rfl⟩
  | some failure =>
      have hanswer : attempt.answer = .error failure := by rw [Attempt.answer, hfailure]
      rw [hanswer] at hcalled ⊢
      cases hafter : (call.tried attempt).afterFailure gateway failure with
      | none =>
          simp only [hfailure, hafter, Prod.mk.injEq, Option.some.injEq] at hstep
          rw [ModelGateway.step, hcalled.afterFailure_none hprimary hafter, ← hstep.2]
          exact ⟨_, rfl⟩
      | some following =>
          simp only [hfailure, hafter] at hstep
          cases hstep

theorem Agrees.step_none {call following : Invocation} {tries : Tries Client Str}
    {attempt : Attempt} (h : Agrees gateway call tries)
    (hstep : call.step gateway attempt = (following, none)) :
    ∃ after, (Gateway.streamed hprimary).step tries attempt.answer = (after, none) ∧
      Agrees gateway following after := by
  rw [Invocation.step] at hstep
  have hcalled := h.called attempt
  cases hfailure : attempt.failure with
  | none =>
      rw [hfailure] at hstep
      cases hstep
  | some failure =>
      have hanswer : attempt.answer = .error failure := by rw [Attempt.answer, hfailure]
      rw [hanswer] at hcalled ⊢
      cases hafter : (call.tried attempt).afterFailure gateway failure with
      | none =>
          simp only [hfailure, hafter] at hstep
          cases hstep
      | some next =>
          simp only [hfailure, hafter, Prod.mk.injEq, and_true] at hstep
          obtain ⟨after, hgoesOn, hagrees⟩ := hcalled.afterFailure_some hprimary hafter
          rw [ModelGateway.step, hgoesOn, ← hstep]
          exact ⟨after, rfl, hagrees⟩

/-- The loop of a streamed call ends as the loop of the gateway does. -/
theorem invoke_streamed (answers : Nat → Attempt) {call : Invocation}
    {tries : Tries Client Str} (h : Agrees gateway call tries) :
    ((Gateway.streamed hprimary).loop (fun i => (answers i).answer) tries).2 =
      .ofEnding (invoke gateway answers call).2 := by
  fun_induction invoke gateway answers call generalizing tries with
  | case1 call final ending hstep =>
      obtain ⟨after, hends⟩ := h.step_some hprimary hstep
      rw [← h.totalAttempts] at hends
      rw [ModelGateway.loop_ends _ hends]
  | case2 call following hstep ih =>
      obtain ⟨after, hgoesOn, hagrees⟩ := h.step_none hprimary hstep
      rw [← h.totalAttempts] at hgoesOn
      rw [ModelGateway.loop_goes_on _ hgoesOn]
      exact ih hagrees

/-- `stream_complete` is `_invoke` of the streamed attempts. -/
theorem streamComplete_eq_invoke (answers : Nat → Attempt) :
    ((Gateway.streamed hprimary).invoke fun i => (answers i).answer).2 =
      .ofEnding (gateway.streamComplete answers).2 :=
  invoke_streamed hprimary answers
    { clientIndex := rfl
      client := rfl
      attempt := rfl
      totalAttempts := rfl
      lastError := rfl
      lastClassification := rfl }

end Streamed
end Models
end CodeCub

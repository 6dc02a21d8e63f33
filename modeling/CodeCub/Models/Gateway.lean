import CodeCub.Models.EventStream

/-!
# The model gateway

`codecub/model_gateway.py`: a call is tried again on the same client while its failure is
retryable, and handed on to the next client of the chain while it may be.  Every attempt of
a streamed call gets the same callback.
-/

namespace CodeCub
namespace Models

open Python

inductive ErrorKind where
  | rateLimit
  | server
  | network
  | auth
  | billing
  | invalidRequest
  | modelUnavailable
  | unknown
  deriving DecidableEq, Repr

structure ErrorClassification where
  kind : ErrorKind
  retryable : Bool := false
  fallbackEligible : Bool := false
  statusCode : Option Nat := none
  reason : Str := []
  provider : Str := []
  deriving DecidableEq, Repr

/-- An exception of a client, with `classify_model_error` of it. -/
structure Failure where
  error : Str
  classification : ErrorClassification
  deriving DecidableEq, Repr

/-- One call of `stream_complete` on a client: what it passes to `on_delta`, and how it ends.
A text that is returned is what was passed. -/
structure Attempt where
  deltas : List Str
  failure : Option Failure := none
  deriving DecidableEq, Repr

def Attempt.text (attempt : Attempt) : Str := attempt.deltas.flatten

structure Client where
  model : Str
  deriving DecidableEq, Repr

structure Gateway where
  primary : Client
  fallbacks : List Client := []
  maxRetries : Nat := 2

namespace Gateway

def clients (gateway : Gateway) : List Client := gateway.primary :: gateway.fallbacks

end Gateway

/-- What the gateway adds to `last_completion_metadata`. -/
structure Completion where
  fallbackUsed : Bool
  fallbackFrom : Str
  fallbackTo : Str
  retryCount : Nat
  attempts : Nat
  totalAttempts : Nat
  lastTransientError : Str
  lastErrorClassification : Option ErrorClassification
  fallbackChainIndex : Nat
  deriving DecidableEq, Repr

inductive GatewayEvent where
  | retry (attempt : Nat) (error : Str) (classification : ErrorClassification)
  | fallback (origin target error : Str) (classification : ErrorClassification) (chainIndex : Nat)
  deriving DecidableEq, Repr

/-- The locals of `_invoke`, with what the caller's callback and the event sink have got. -/
structure Invocation where
  clientIndex : Nat := 0
  attempt : Nat := 0
  totalAttempts : Nat := 0
  lastError : Str := []
  lastClassification : Option ErrorClassification := none
  passed : List Str := []
  emitted : List GatewayEvent := []
  deriving DecidableEq, Repr

/-- How a call ends: a text with its metadata, or an exception. -/
inductive Ending where
  | returned (text : Str) (completion : Completion)
  | raised (failure : Failure)
  deriving DecidableEq, Repr

namespace Invocation

variable (gateway : Gateway)

/-- `client`. -/
def client (call : Invocation) : Client := gateway.clients.getD call.clientIndex gateway.primary

def completion (call : Invocation) : Completion where
  fallbackUsed := 0 < call.clientIndex
  fallbackFrom := gateway.primary.model
  fallbackTo := if 0 < call.clientIndex then (call.client gateway).model else []
  retryCount := call.attempt
  attempts := call.attempt + 1
  totalAttempts := call.totalAttempts
  lastTransientError := call.lastError
  lastErrorClassification := call.lastClassification
  fallbackChainIndex := call.clientIndex

/-- The call after an attempt that is counted and has passed its deltas. -/
def tried (call : Invocation) (attempt : Attempt) : Invocation :=
  { call with
    totalAttempts := call.totalAttempts + 1
    passed := call.passed ++ attempt.deltas }

/-- The `except` clause; `none` when the exception goes on to the caller. -/
def afterFailure (call : Invocation) (failure : Failure) : Option Invocation :=
  let known := { call with
    lastClassification := some failure.classification, lastError := failure.error }
  if ¬ failure.classification.retryable ∧ ¬ failure.classification.fallbackEligible then none
  else if failure.classification.retryable ∧ call.attempt < gateway.maxRetries then
    some { known with
      attempt := call.attempt + 1
      emitted := call.emitted ++
        [.retry (call.attempt + 1) failure.error failure.classification] }
  else if failure.classification.fallbackEligible ∧
      call.clientIndex + 1 < gateway.clients.length then
    some { known with
      clientIndex := call.clientIndex + 1
      attempt := 0
      emitted := call.emitted ++
        [.fallback gateway.primary.model
          (gateway.clients.getD (call.clientIndex + 1) gateway.primary).model failure.error
          failure.classification (call.clientIndex + 1)] }
  else none

/-- One pass of the loop. -/
def step (call : Invocation) (attempt : Attempt) : Invocation × Option Ending :=
  let call := call.tried attempt
  match attempt.failure with
  | none => (call, some (.returned attempt.text (call.completion gateway)))
  | some failure =>
      match call.afterFailure gateway failure with
      | none => (call, some (.raised failure))
      | some call => (call, none)

theorem afterFailure_some {call next : Invocation} {failure : Failure}
    (h : call.afterFailure gateway failure = some next) :
    next.passed = call.passed ∧ next.totalAttempts = call.totalAttempts ∧
      (next.clientIndex = call.clientIndex ∧ next.attempt = call.attempt + 1 ∧
          call.attempt < gateway.maxRetries ∨
        next.clientIndex = call.clientIndex + 1 ∧ next.clientIndex < gateway.clients.length) := by
  rw [afterFailure] at h
  split at h
  · cases h
  · split at h
    · next hretry =>
        cases h
        exact ⟨rfl, rfl, Or.inl ⟨rfl, rfl, hretry.2⟩⟩
    · split at h
      · next hfallback =>
          cases h
          exact ⟨rfl, rfl, Or.inr ⟨rfl, hfallback.2⟩⟩
      · cases h

/-- A pass that goes on has counted a failed attempt. -/
theorem step_none {call next : Invocation} {attempt : Attempt}
    (h : call.step gateway attempt = (next, none)) :
    attempt.failure.isSome ∧ next.passed = call.passed ++ attempt.deltas ∧
      next.totalAttempts = call.totalAttempts + 1 ∧
      (next.clientIndex = call.clientIndex ∧ next.attempt = call.attempt + 1 ∧
          call.attempt < gateway.maxRetries ∨
        next.clientIndex = call.clientIndex + 1 ∧ next.clientIndex < gateway.clients.length) := by
  rw [step] at h
  cases hfailure : attempt.failure with
  | none =>
      rw [hfailure] at h
      cases h
  | some failure =>
      rw [hfailure] at h
      cases hafter : (call.tried attempt).afterFailure gateway failure with
      | none =>
          simp only [hafter] at h
          cases h
      | some following =>
          simp only [hafter, Prod.mk.injEq, and_true] at h
          obtain ⟨hpassed, htotal, hplace⟩ := afterFailure_some gateway hafter
          rw [← h]
          exact ⟨rfl, hpassed, htotal, hplace⟩

/-- A pass that returns a text has it from an attempt that succeeded. -/
theorem step_returned {call next : Invocation} {attempt : Attempt} {text : Str}
    {completion : Completion}
    (h : call.step gateway attempt = (next, some (.returned text completion))) :
    attempt.failure = none ∧ next.passed = call.passed ++ attempt.deltas ∧
      text = attempt.text := by
  rw [step] at h
  cases hfailure : attempt.failure with
  | none =>
      simp only [hfailure, Prod.mk.injEq, Option.some.injEq, Ending.returned.injEq] at h
      obtain ⟨rfl, rfl, -⟩ := h
      exact ⟨rfl, rfl, rfl⟩
  | some failure =>
      rw [hfailure] at h
      cases hafter : (call.tried attempt).afterFailure gateway failure with
      | none =>
          simp only [hafter] at h
          cases h
      | some following =>
          simp only [hafter] at h
          cases h

end Invocation

/-- `_invoke("stream_complete", ...)` from the state of its loop, where `answers i` is the
attempt with number `i` of the call. -/
def invoke (gateway : Gateway) (answers : Nat → Attempt) (call : Invocation) :
    Invocation × Ending :=
  match _hstep : call.step gateway (answers call.totalAttempts) with
  | (call, some ending) => (call, ending)
  | (call, none) => invoke gateway answers call
termination_by (gateway.clients.length - call.clientIndex, gateway.maxRetries - call.attempt)
decreasing_by
  obtain ⟨-, -, -, ⟨hindex, hattempt, hlt⟩ | ⟨hindex, hlt⟩⟩ := Invocation.step_none gateway _hstep
  · rw [Prod.lex_def, hindex, hattempt]
    omega
  · rw [Prod.lex_def, hindex]
    omega

/-- `ModelGateway.stream_complete`. -/
def Gateway.streamComplete (gateway : Gateway) (answers : Nat → Attempt) : Invocation × Ending :=
  invoke gateway answers {}

theorem invoke_goes_on {gateway : Gateway} {answers : Nat → Attempt} {call next : Invocation}
    (h : call.step gateway (answers call.totalAttempts) = (next, none)) :
    invoke gateway answers call = invoke gateway answers next := by
  rw [invoke]
  split
  · next hstep =>
      rw [h] at hstep
      cases hstep
  · next hstep =>
      rw [h] at hstep
      cases hstep
      rfl

theorem invoke_ends {gateway : Gateway} {answers : Nat → Attempt} {call final : Invocation}
    {ending : Ending}
    (h : call.step gateway (answers call.totalAttempts) = (final, some ending)) :
    invoke gateway answers call = (final, ending) := by
  rw [invoke]
  split
  · next hstep =>
      rw [h] at hstep
      cases hstep
      rfl
  · next hstep =>
      rw [h] at hstep
      cases hstep

/-! ## The attempts of a streaming client -/

section Client

variable {F : Type} [FiniteFloat F] (classify : ReadError → Failure)

def asText : Json Str F → Option Str
  | .str text => some text
  | _ => none

/-- One attempt of a client that reads `lines`; `broken` when the stream ends with an
exception after them. -/
def streamAttempt (F : Type) [FiniteFloat F] (lines : List Str) (broken : Option Failure) :
    Attempt :=
  match broken with
  | some failure => { deltas := textParts F lines, failure := some failure }
  | none =>
      let read : List (Json Str F) × Except ReadError (Json Str F) := streamComplete lines
      match read.2 with
      | .ok _ => { deltas := read.1.filterMap asText }
      | .error error =>
          { deltas := read.1.filterMap asText, failure := some (classify error) }

/-- What the client returns is the text of its attempt. -/
theorem streamAttempt_text {lines : List Str} {text : Json Str F}
    (h : (streamComplete lines).2 = .ok text) :
    text = .str (streamAttempt classify F lines none).text := by
  by_cases hparts : textParts F lines = []
  · rw [streamComplete, if_neg (not_not.mpr hparts)] at h
    rw [streamAttempt, streamComplete, if_neg (not_not.mpr hparts)]
    cases hread : (extractFromSse (events (splitlines lines.flatten)) none [] :
        Except ReadError (Json Str F)) with
    | error error =>
        simp only [hread] at h
        cases h
    | ok found =>
        simp only [hread] at h
        split at h
        · next htruth =>
            split at h
            · next text =>
                obtain rfl := Except.ok.inj h
                simp [htruth, asText, Attempt.text]
            · cases h
        · cases h
  · rw [streamComplete_of_parts hparts] at h
    rw [streamAttempt, streamComplete_of_parts hparts, ← Except.ok.inj h]
    simp [Attempt.text, List.filterMap_map, Function.comp_def, asText]

/-- A stream that breaks off has passed no text exactly when no delta of its lines has any. -/
theorem streamAttempt_silent {lines : List Str} {failure : Failure} :
    (streamAttempt classify F lines (some failure)).deltas.flatten = [] ↔
      textParts F lines = [] :=
  flatten_textParts.symm

end Client

/-! ## What the callback has got when a text is returned -/

/-- The deltas of the attempts from number `i` on, `n` of them. -/
def passedBy (answers : Nat → Attempt) (i n : Nat) : List Str :=
  (List.range' i n).flatMap fun j => (answers j).deltas

theorem passedBy_succ (answers : Nat → Attempt) (i n : Nat) :
    passedBy answers i (n + 1) = (answers i).deltas ++ passedBy answers (i + 1) n := by
  rw [passedBy, List.range'_succ, List.flatMap_cons, passedBy]

/-- A text comes from the first attempt that does not fail, and the callback has the deltas
of all attempts up to it. -/
theorem invoke_returned {gateway : Gateway} {answers : Nat → Attempt} {call final : Invocation}
    {text : Str} {completion : Completion}
    (h : invoke gateway answers call = (final, .returned text completion)) :
    ∃ n, (∀ j < n, (answers (call.totalAttempts + j)).failure.isSome) ∧
      (answers (call.totalAttempts + n)).failure = none ∧
      text = (answers (call.totalAttempts + n)).text ∧
      final.passed = call.passed ++ passedBy answers call.totalAttempts (n + 1) := by
  fun_induction invoke gateway answers call with
  | case1 call next ending hstep =>
      obtain ⟨rfl, rfl⟩ := Prod.mk.inj h
      obtain ⟨hfailure, hpassed, htext⟩ := Invocation.step_returned gateway hstep
      refine ⟨0, fun j hj => absurd hj (Nat.not_lt_zero j), hfailure, htext, ?_⟩
      rw [hpassed, passedBy_succ, passedBy, List.range'_zero, List.flatMap_nil, List.append_nil]
  | case2 call next hstep ih =>
      obtain ⟨hfailed, hpassed, htotal, -⟩ := Invocation.step_none gateway hstep
      obtain ⟨n, hearlier, hfailure, htext, hfinal⟩ := ih h
      rw [htotal] at hearlier hfailure htext hfinal
      have hshift (j : Nat) : call.totalAttempts + 1 + j = call.totalAttempts + (j + 1) := by
        omega
      rw [hshift] at hfailure htext
      refine ⟨n + 1, ?_, hfailure, htext, ?_⟩
      · intro j hj
        cases j with
        | zero => exact hfailed
        | succ j =>
            rw [← hshift]
            exact hearlier j (Nat.lt_of_succ_lt_succ hj)
      · rw [hfinal, hpassed, passedBy_succ answers _ (n + 1), List.append_assoc]

/-- Every attempt before the first that does not fail has passed no text. -/
def SilentFailures (answers : Nat → Attempt) : Prop :=
  ∀ i, (∀ j ≤ i, (answers j).failure.isSome) → (answers i).deltas.flatten = []

theorem flatten_passedBy_eq_nil {answers : Nat → Attempt} {n : Nat} :
    (passedBy answers 0 n).flatten = [] ↔ ∀ i < n, (answers i).deltas.flatten = [] := by
  simp only [passedBy, List.flatten_eq_nil_iff, List.mem_flatMap, List.mem_range'_1]
  constructor
  · intro h i hi delta hdelta
    exact h delta ⟨i, ⟨Nat.zero_le i, by omega⟩, hdelta⟩
  · rintro h delta ⟨i, ⟨-, hi⟩, hdelta⟩
    exact h i (by omega) delta hdelta

/-- The callback has got exactly the text that is returned when no failed attempt has passed
any text on. -/
theorem passed_eq_text_iff {gateway : Gateway} {answers : Nat → Attempt} {final : Invocation}
    {text : Str} {completion : Completion}
    (h : gateway.streamComplete answers = (final, .returned text completion)) :
    final.passed.flatten = text ↔ SilentFailures answers := by
  obtain ⟨n, hearlier, hfailure, htext, hfinal⟩ := invoke_returned h
  simp only [Nat.zero_add, List.nil_append] at hearlier hfailure htext hfinal
  have hsplit : final.passed.flatten = (passedBy answers 0 n).flatten ++ text := by
    rw [hfinal, passedBy, List.range'_concat, List.flatMap_append, List.flatten_append, ← passedBy,
      htext]
    simp [Attempt.text]
  rw [hsplit, List.append_left_eq_self, flatten_passedBy_eq_nil]
  constructor
  · intro hsilent i hfailed
    by_cases hi : i < n
    · exact hsilent i hi
    · have hlast := hfailed n (Nat.le_of_not_lt hi)
      rw [hfailure] at hlast
      cases hlast
  · intro hsilent i hi
    exact hsilent i fun j hj => hearlier j (Nat.lt_of_le_of_lt hj hi)

/-- A connection that is reset: it may be tried again, and handed on. -/
def reset : Failure where
  error := "connection reset".toList
  classification :=
    { kind := .network, retryable := true, fallbackEligible := true,
      reason := "provider endpoint or network is temporarily unavailable".toList }

def oneClient : Gateway where
  primary := { model := [] }

/-- The first attempt breaks off after `before`, the second one delivers a whole text. -/
def brokenOff (before : List Str) : Nat → Attempt
  | 0 => { deltas := before, failure := some reset }
  | _ => { deltas := ["Hel".toList, "lo".toList] }

theorem brokenOff_returns (before : List Str) :
    ∃ final completion, oneClient.streamComplete (brokenOff before) =
        (final, .returned ["Hel".toList, "lo".toList].flatten completion) ∧
      final.passed = before ++ ["Hel".toList, "lo".toList] :=
  ⟨_, _, (invoke_goes_on rfl).trans (invoke_ends rfl), rfl⟩

/-- A retry that had passed nothing does no harm. -/
theorem silent_retry_passes_text :
    ∃ final completion, oneClient.streamComplete (brokenOff []) =
        (final, .returned ["Hel".toList, "lo".toList].flatten completion) ∧
      final.passed.flatten = ["Hel".toList, "lo".toList].flatten := by
  obtain ⟨final, completion, hreturned, -⟩ := brokenOff_returns []
  refine ⟨final, completion, hreturned, (passed_eq_text_iff hreturned).mpr ?_⟩
  intro i hfailed
  cases i with
  | zero => rfl
  | succ i => exact absurd (hfailed (i + 1) (Nat.le_refl _)) Bool.false_ne_true

/-- What an attempt has passed before it breaks off stays, and the retry passes it again. -/
theorem retry_repeats_deltas :
    ¬ ∀ (gateway : Gateway) answers final text completion,
      gateway.streamComplete answers = (final, .returned text completion) →
        final.passed.flatten = text := by
  intro h
  obtain ⟨final, completion, hreturned, hpassed⟩ := brokenOff_returns ["Hel".toList]
  have htwice := h _ _ _ _ _ hreturned
  rw [hpassed] at htwice
  revert htwice
  decide +kernel

end Models
end CodeCub

import CodeCub.Machine.Run
import CodeCub.Runs.RunStore
import CodeCub.Tooling.Circuit

/-!
# The governed tool executor

`execute` is the gate sequence of `GovernedToolExecutor._execute` with the replay
adapter of the runtime: admission, circuit breaker, ledger claim, the tool
itself, and the bookkeeping that follows it in the `try` block or in its
handler.  Every collaborator that lives outside the run (approval, validation,
the tool's `run`, the workspace, the clock, the observers) answers through
`Answers`, and whatever can raise there answers with an `Except`.
-/

namespace CodeCub
namespace Tooling

open Python Runs

/-- The side-effect fields that the replay adapter adds to a call's metadata. -/
structure SideEffectMetadata where
  operationKey : String
  argsDigest : String
  claimed : Bool
  replayBlocked : Bool
  priorState : Option OperationState
  commitRecorded : Bool
  outcomeUncertain : Bool
  idempotencyKeyConflict : Bool
  deriving DecidableEq, Repr

/-- `last_metadata` of one call.  An `Option` field is absent from the Python
dictionary when it is `none`. -/
structure Metadata where
  toolStatus : ToolStatus := .ok
  toolErrorCode : ErrorCode := .none
  toolExecutionSuccess : Option Bool := none
  toolBusinessSuccess : Option Bool := none
  toolResultValidationFailed : Option Bool := none
  toolResultFailureReason : Option String := none
  securityEventType : SecurityEvent := .none
  riskLevel : RiskLevel := .low
  readOnly : Bool := true
  affectedPaths : List String := []
  workspaceChanged : Bool := false
  workspaceFingerprint : Option String := none
  diffSummary : List String := []
  circuitState : Option CircuitStatus := none
  sideEffect : Option SideEffectMetadata := none

/-- What `observation.prepare` decides: answer the call itself, or let it go on
with these argument sets and this rendering of their results. -/
inductive Prepared (A : Type)
  | answer (result : String)
  | proceed (calls : List A) (formatResult : List String → String)

/-- The rendering used when `prepare` gives none. -/
def defaultFormat : List String → String
  | [value] => value
  | values => String.intercalate "\n\n" values

structure HandlerAnswers where
  snapshot : Except Exn Snapshot := .ok ∅
  fingerprint : Except Exn String := .ok ""
  completeFailure : Option Exn := none
  failureClock : ℚ := 0
  record : Except Exn Unit := .ok ()

/-- The answers of every collaborator during one call, in the order they are
asked. -/
structure Answers (A : Type) where
  cancelled : Except Exn Bool := .ok false
  authorize : Except Exn Bool := .ok true
  validate : Except Exn Unit := .ok ()
  exampleText : String := ""
  prepare : Except Exn (Prepared A) := .ok (.proceed [] defaultFormat)
  repeated : Bool := false
  approve : Except Exn Bool := .ok true
  allowClock : ℚ := 0
  statusClock : ℚ := 0
  /-- Serialising the arguments or writing the ledger raised. -/
  claimFailure : Option Exn := none
  timestamp : Timestamp := ""
  snapshotBefore : Except Exn Snapshot := .ok ∅
  run : A → Except Exn String
  snapshotAfter : Except Exn Snapshot := .ok ∅
  validateResult : Bool × String := (true, "")
  fingerprint : Except Exn String := .ok ""
  completeFailure : Option Exn := none
  failureClock : ℚ := 0
  finalize : Except Exn Unit := .ok ()
  record : Except Exn Unit := .ok ()
  handler : HandlerAnswers := {}

/-- What stays fixed while a run lasts. -/
structure ToolContext (A : Type) where
  tools : Dict String Tool
  /-- SHA-256 of the arguments as JSON with sorted keys. -/
  digest : A → String
  repeatLimit : Nat
  approvalReadOnly : Bool

structure World where
  breaker : ToolCircuitBreaker
  store : RunStore
  taskState : TaskState

structure Call (A : Type) where
  name : String
  args : A
  operationKey : String

/-- What one call did.  `metadata` is what the governed pipeline left in
`last_metadata`, and is dropped when the error handler itself raised.
`ledgerClaim` is the answer of `claim_side_effect_operation` when the call got
that far, and `entered` tells whether the tool's `run` was entered. -/
structure Report where
  result : Except Exn String
  metadata : Option Metadata := none
  ledgerClaim : Option RunStore.Claim := none
  entered : Bool := false

inductive Admission (A : Type)
  | rejected (code : ErrorCode) (message : String)
  | answered (result : String)
  | raised (exn : Exn)
  | admitted (calls : List A) (formatResult : List String → String)

namespace ToolContext

variable {A : Type} (ctx : ToolContext A)

def riskLevel (tool : Tool) : RiskLevel := if tool.risky then .high else .low

/-- `_reject`: the metadata of a call that did not run, and the message returned
unless the observer raises. -/
def reject (env : Answers A) (code : ErrorCode) (message : String)
    (tool : Option Tool) (toolStatus : ToolStatus := .rejected)
    (circuitState : Option CircuitStatus := none)
    (sideEffect : Option SideEffectMetadata := none)
    (ledgerClaim : Option RunStore.Claim := none) : Report where
  result := env.record.map fun _ => message
  metadata := some
    { toolStatus, toolErrorCode := code
      securityEventType :=
        if (message.splitOn "path escapes workspace").length ≠ 1 then .pathEscape
        else if code = .capabilityDenied then .capabilityDenied
        else if code = .approvalDenied then
          if ctx.approvalReadOnly then .readOnlyBlock else .approvalDenied
        else .none
      riskLevel := (tool.map riskLevel).getD .low
      readOnly := !((tool.map Tool.risky).getD false)
      circuitState, sideEffect }
  ledgerClaim
  entered := false

/-- The gates before the circuit breaker. -/
def gate (env : Answers A) (name : String) (tool : Tool) : Admission A :=
  match env.cancelled with
  | .error exn => .raised exn
  | .ok true => .rejected .cancelled ("error: tool " ++ name ++ " cancelled")
  | .ok false =>
  match env.authorize with
  | .error exn => .raised exn
  | .ok false => .rejected .capabilityDenied ("error: capability denied for " ++ name)
  | .ok true =>
  match env.validate with
  | .error exn =>
      let message := "error: invalid arguments for " ++ name ++ ": " ++ exn
      .rejected .invalidArguments
        (if env.exampleText = "" then message else message ++ "\nexample: " ++ env.exampleText)
  | .ok () =>
  match env.prepare with
  | .error exn => .raised exn
  | .ok (.answer result) => .answered result
  | .ok (.proceed calls formatResult) =>
  if env.repeated then
    .rejected .repeatedIdenticalCall
      ("error: repeated identical tool call for " ++ name ++ "; same no-progress action reached " ++
        toString ctx.repeatLimit ++ " consecutive attempts")
  else if tool.risky then
    match env.approve with
    | .error exn => .raised exn
    | .ok false => .rejected .approvalDenied ("error: approval denied for " ++ name)
    | .ok true => .admitted calls formatResult
  else .admitted calls formatResult

/-- What `_RuntimeToolReplay.claim` returns. -/
inductive ReplayClaim
  | free
  | owned (operationKey argsDigest : String)
  | refused (code : ErrorCode) (message : String) (details : SideEffectMetadata)

def refusal (claim : RunStore.Claim) : ErrorCode × String :=
  if claim.conflict then
    (.idempotencyKeyConflict,
      "error: idempotency key conflicts with a different side-effect operation")
  else if claim.priorState = some .completed then
    (.sideEffectReplayBlocked, "error: side-effect operation was already completed")
  else
    (.outcomeUncertain, "error: prior side-effect outcome is uncertain; replay is blocked")

def claim (w : World) (env : Answers A) (name : String) (args : A) (operationKey : String)
    (sideEffect : Bool) : Except Exn (ReplayClaim × Option RunStore.Claim × World) :=
  if !sideEffect || operationKey = "" then .ok (.free, none, w)
  else
    match env.claimFailure with
    | some exn => .error exn
    | none =>
        let digest := ctx.digest args
        match w.store.claimSideEffectOperation w.taskState operationKey name digest
          env.timestamp with
        | .error exn => .error exn
        | .ok (claim, store, taskState) =>
            let w := { w with store, taskState }
            if claim.claimed then .ok (.owned operationKey digest, some claim, w)
            else
              let (code, message) := refusal claim
              .ok (.refused code message
                { operationKey, argsDigest := digest, claimed := false, replayBlocked := true
                  priorState := claim.priorState, commitRecorded := false
                  outcomeUncertain := claim.priorState = some .claimed ||
                    claim.priorState = some .uncertain
                  idempotencyKeyConflict := claim.conflict }, some claim, w)

def resultMetadata (metadata : Metadata) : ResultMetadata where
  toolStatus := metadata.toolStatus
  toolErrorCode := metadata.toolErrorCode
  toolExecutionSuccess := metadata.toolExecutionSuccess.getD false
  toolBusinessSuccess := metadata.toolBusinessSuccess.getD false
  toolResultValidationFailed := metadata.toolResultValidationFailed
  toolResultFailureReason := metadata.toolResultFailureReason
  workspaceChanged := metadata.workspaceChanged

/-- `_RuntimeToolReplay.complete`; a call without a claimed key has nothing to
complete. -/
def complete (w : World) (claim : ReplayClaim) (success : Bool) (metadata : Metadata)
    (failure : Option Exn) (timestamp : Timestamp) : Except Exn (World × Metadata) :=
  match claim with
  | .owned key digest =>
      let details : SideEffectMetadata :=
        { operationKey := key, argsDigest := digest, claimed := true, replayBlocked := false
          priorState := none, commitRecorded := success, outcomeUncertain := !success
          idempotencyKeyConflict := false }
      let metadata := { metadata with sideEffect := some details }
      match failure with
      | some exn => .error exn
      | none =>
          match w.store.updateSideEffectOperation w.taskState key
            (if success then .completed else .uncertain) (some (resultMetadata metadata))
            timestamp with
          | .error exn => .error exn
          | .ok (store, taskState) => .ok ({ w with store, taskState }, metadata)
  | _ => .ok (w, metadata)

def recordResult (w : World) (name : String) (success : Bool) (now : ℚ) : World :=
  if ((ctx.tools.lookup name).getD {}).circuitBreaker then
    { w with breaker :=
        if success then w.breaker.recordSuccess name else w.breaker.recordFailure name now }
  else w

/-- The body of the `try` block.  The world is the one reached when it returned
or raised. -/
def attempt (w : World) (env : Answers A) (name : String) (tool : Tool) (claim : ReplayClaim)
    (calls : List A) (formatResult : List String → String) (before : Snapshot) :
    World × Except Exn (String × Metadata) :=
  match calls.mapM env.run with
  | .error exn => (w, .error exn)
  | .ok results =>
  match (if tool.risky then env.snapshotAfter else .ok before) with
  | .error exn => (w, .error exn)
  | .ok after =>
  match env.fingerprint with
  | .error exn => (w, .error exn)
  | .ok fingerprint =>
  let (affected, diff) := Snapshot.diff before after
  let (businessSuccess, reason) := env.validateResult
  let metadata : Metadata :=
    { toolStatus := if businessSuccess then .ok else if affected.isEmpty then .error
        else .partialSuccess
      toolErrorCode := if businessSuccess then .none else .toolBusinessFailure
      toolExecutionSuccess := some true
      toolBusinessSuccess := some businessSuccess
      toolResultValidationFailed := some !businessSuccess
      toolResultFailureReason := some reason
      riskLevel := riskLevel tool
      readOnly := !tool.risky
      affectedPaths := affected
      workspaceChanged := !affected.isEmpty
      workspaceFingerprint := some fingerprint
      diffSummary := diff }
  match complete w claim businessSuccess metadata env.completeFailure env.timestamp with
  | .error exn => (w, .error exn)
  | .ok (w, metadata) =>
  let w := ctx.recordResult w name businessSuccess env.failureClock
  match env.finalize with
  | .error exn => (w, .error exn)
  | .ok () =>
  match env.record with
  | .error exn => (w, .error exn)
  | .ok () => (w, .ok (formatResult results, metadata))

/-- The `except` handler. -/
def recover (w : World) (env : Answers A) (name : String) (tool : Tool) (claim : ReplayClaim)
    (before : Snapshot) (exn : Exn) : World × Except Exn String × Option Metadata :=
  match (if tool.risky then env.handler.snapshot else .ok before) with
  | .error exn => (w, .error exn, none)
  | .ok after =>
  match env.handler.fingerprint with
  | .error exn => (w, .error exn, none)
  | .ok fingerprint =>
  let (affected, diff) := Snapshot.diff before after
  let metadata : Metadata :=
    { toolStatus := if affected.isEmpty then .error else .partialSuccess
      toolErrorCode := if affected.isEmpty then .toolFailed else .toolPartialSuccess
      toolExecutionSuccess := some false
      toolBusinessSuccess := some false
      riskLevel := riskLevel tool
      readOnly := !tool.risky
      affectedPaths := affected
      workspaceChanged := !affected.isEmpty
      workspaceFingerprint := some fingerprint
      diffSummary := diff }
  match complete w claim false metadata env.handler.completeFailure env.timestamp with
  | .error exn => (w, .error exn, none)
  | .ok (w, metadata) =>
  let w := ctx.recordResult w name false env.handler.failureClock
  match env.handler.record with
  | .error exn => (w, .error exn, none)
  | .ok () => (w, .ok ("error: tool " ++ name ++ " failed: " ++ exn), some metadata)

/-- From the first snapshot to the end of a call whose claim was accepted. -/
def runClaimed (w : World) (env : Answers A) (name : String) (args : A) (tool : Tool)
    (claim : ReplayClaim) (ledgerClaim : Option RunStore.Claim) (calls : List A)
    (formatResult : List String → String) : World × Report :=
  match (if tool.risky then env.snapshotBefore else .ok ∅) with
  | .error exn => (w, { result := .error exn, ledgerClaim })
  | .ok before =>
  match ctx.attempt w env name tool claim (if calls.isEmpty then [args] else calls) formatResult
    before with
  | (w, .ok (result, metadata)) =>
      (w, { result := .ok result, metadata := some metadata, ledgerClaim, entered := true })
  | (w, .error exn) =>
      let (w, result, metadata) := ctx.recover w env name tool claim before exn
      (w, { result, metadata, ledgerClaim, entered := true })

/-- From the ledger claim to the end of the call. -/
def perform (w : World) (env : Answers A) (name : String) (args : A) (operationKey : String)
    (tool : Tool) (calls : List A) (formatResult : List String → String) : World × Report :=
  match ctx.claim w env name args operationKey tool.sideEffect with
  | .error exn => (w, { result := .error exn })
  | .ok (.refused code message details, ledgerClaim, w) =>
      (w, ctx.reject env code message (some tool) .blocked none (some details) ledgerClaim)
  | .ok (claim, ledgerClaim, w) =>
      ctx.runClaimed w env name args tool claim ledgerClaim calls formatResult

def execute (w : World) (call : Call A) (env : Answers A) : World × Report :=
  let name := strip call.name
  match ctx.tools.lookup name with
  | none =>
      (w, ctx.reject env .unknownTool ("error: unknown tool '" ++ name ++ "'") none)
  | some tool =>
  match ctx.gate env name tool with
  | .raised exn => (w, { result := .error exn })
  | .rejected code message => (w, ctx.reject env code message (some tool))
  | .answered result => (w, { result := env.record.map fun _ => result, metadata := some {} })
  | .admitted calls formatResult =>
  let (allowed, breaker) :=
    if tool.circuitBreaker then w.breaker.allow name env.allowClock else (true, w.breaker)
  let w := { w with breaker }
  if allowed then
    ctx.perform w env name call.args (strip call.operationKey) tool calls formatResult
  else
    (w, ctx.reject env .circuitOpen ("error: tool " ++ name ++ " circuit is open") (some tool)
      .blocked (some (w.breaker.status name env.statusClock)))

variable {ctx} {w w' : World} {env : Answers A} {call : Call A} {name : String} {args : A}
  {operationKey : String} {tool : Tool} {calls : List A} {formatResult : List String → String}

/-- A call that stopped before the ledger: it neither claimed nor ran anything. -/
def Report.Stopped (r : Report) : Prop := r.ledgerClaim = none ∧ r.entered = false

theorem reject_stopped (code : ErrorCode) (message : String) (tool : Option Tool)
    (toolStatus : ToolStatus) (circuitState : Option CircuitStatus) :
    Report.Stopped (ctx.reject env code message tool toolStatus circuitState) :=
  ⟨rfl, rfl⟩

/-- The world in which an admitted call meets the ledger. -/
def afterAllow (w : World) (env : Answers A) (name : String) (tool : Tool) : World :=
  { w with breaker :=
      if tool.circuitBreaker then (w.breaker.allow name env.allowClock).2 else w.breaker }

/-- A call stops at a gate, or is refused by the breaker, or goes on to the
ledger claim. -/
theorem execute_cases (ctx : ToolContext A) (w : World) (call : Call A) (env : Answers A) :
    ((∀ tool, ctx.tools.lookup (strip call.name) = some tool →
        ∀ calls formatResult, ctx.gate env (strip call.name) tool ≠ .admitted calls formatResult) ∧
      (ctx.execute w call env).1 = w ∧ Report.Stopped (ctx.execute w call env).2) ∨
    (∃ tool calls formatResult, ctx.tools.lookup (strip call.name) = some tool ∧
      ctx.gate env (strip call.name) tool = .admitted calls formatResult ∧
      ((tool.circuitBreaker = true ∧ (w.breaker.allow (strip call.name) env.allowClock).1 = false ∧
        (ctx.execute w call env).1 = afterAllow w env (strip call.name) tool ∧
        Report.Stopped (ctx.execute w call env).2) ∨
       ((tool.circuitBreaker = true → (w.breaker.allow (strip call.name) env.allowClock).1 = true) ∧
        ctx.execute w call env =
          ctx.perform (afterAllow w env (strip call.name) tool) env (strip call.name) call.args
            (strip call.operationKey) tool calls formatResult))) := by
  cases htool : ctx.tools.lookup (strip call.name) with
  | none =>
      have hexec : ctx.execute w call env =
          (w, ctx.reject env .unknownTool ("error: unknown tool '" ++ strip call.name ++ "'")
            none) := by
        simp [execute, htool]
      exact Or.inl ⟨by simp, by rw [hexec], by rw [hexec]; exact reject_stopped ..⟩
  | some tool =>
      cases hgate : ctx.gate env (strip call.name) tool with
      | raised exn =>
          refine Or.inl ⟨by simp [hgate], ?_⟩
          simp [execute, htool, hgate, Report.Stopped]
      | rejected code message =>
          refine Or.inl ⟨by simp [hgate], ?_⟩
          simp [execute, htool, hgate, reject_stopped]
      | answered result =>
          refine Or.inl ⟨by simp [hgate], ?_⟩
          simp [execute, htool, hgate, Report.Stopped]
      | admitted calls formatResult =>
          refine Or.inr ⟨tool, calls, formatResult, rfl, hgate, ?_⟩
          cases hcb : tool.circuitBreaker with
          | false =>
              refine Or.inr ⟨by simp, ?_⟩
              simp [execute, htool, hgate, hcb, afterAllow]
          | true =>
              cases hallow : (w.breaker.allow (strip call.name) env.allowClock).1 with
              | true =>
                  refine Or.inr ⟨fun _ => rfl, ?_⟩
                  simp [execute, htool, hgate, hcb, hallow, afterAllow]
              | false =>
                  refine Or.inl ⟨rfl, rfl, ?_⟩
                  simp [execute, htool, hgate, hcb, hallow, afterAllow, reject_stopped]

/-- A call is free of the ledger, or its key is looked up there: a new key is
owned by the call and a known one is refused. -/
theorem claim_cases {sideEffect : Bool} {c : ReplayClaim} {ledgerClaim : Option RunStore.Claim}
    (h : ctx.claim w env name args operationKey sideEffect = .ok (c, ledgerClaim, w')) :
    (¬ (sideEffect = true ∧ operationKey ≠ "") ∧ c = .free ∧ ledgerClaim = none ∧ w' = w) ∨
    ((sideEffect = true ∧ operationKey ≠ "") ∧ env.claimFailure = none ∧
      ∃ k store taskState,
        w.store.claimSideEffectOperation w.taskState operationKey name (ctx.digest args)
          env.timestamp = .ok (k, store, taskState) ∧
        w' = { w with store, taskState } ∧ ledgerClaim = some k ∧
        ((k.claimed = true ∧ c = .owned operationKey (ctx.digest args)) ∨
         (k.claimed = false ∧ ∃ details, c = .refused (refusal k).1 (refusal k).2 details))) := by
  unfold claim at h
  split at h
  · next hfree =>
      cases h
      refine Or.inl ⟨?_, rfl, rfl, rfl⟩
      intro hneeds
      obtain ⟨rfl, hkey⟩ := hneeds
      simp [hkey] at hfree
  · next hfree =>
      have hside : sideEffect = true ∧ operationKey ≠ "" := by
        simpa using hfree
      split at h
      · cases h
      · next hfail =>
          simp only at h
          split at h
          · cases h
          · next k store taskState hk =>
              split at h
              · next hclaimed =>
                  cases h
                  exact Or.inr ⟨hside, hfail, k, store, taskState, hk, rfl, rfl,
                    Or.inl ⟨hclaimed, rfl⟩⟩
              · next hclaimed =>
                  cases h
                  exact Or.inr ⟨hside, hfail, k, store, taskState, hk, rfl, rfl,
                    Or.inr ⟨by simpa using hclaimed, _, rfl⟩⟩

/-- Completing a call touches the ledger only, and only under the claimed key. -/
theorem complete_cases {c : ReplayClaim} {success : Bool} {metadata metadata' : Metadata}
    {failure : Option Exn} {timestamp : Timestamp}
    (h : complete w c success metadata failure timestamp = .ok (w', metadata')) :
    ((∀ key digest, c ≠ .owned key digest) ∧ w' = w) ∨
    (∃ key digest state result store taskState, c = .owned key digest ∧ failure = none ∧
      w.store.updateSideEffectOperation w.taskState key state result timestamp =
        .ok (store, taskState) ∧ w' = { w with store, taskState }) := by
  unfold complete at h
  split at h
  · next key digest =>
      simp only at h
      split at h
      · cases h
      · split at h
        · cases h
        · next store taskState hup =>
            cases h
            exact Or.inr ⟨key, digest, _, _, store, taskState, rfl, rfl, hup, rfl⟩
  · next hc =>
      cases h
      exact Or.inl ⟨fun key digest hk => hc key digest hk, rfl⟩

@[simp] theorem recordResult_store (success : Bool) (now : ℚ) :
    (ctx.recordResult w name success now).store = w.store := by
  unfold recordResult
  split <;> rfl

@[simp] theorem recordResult_taskState (success : Bool) (now : ℚ) :
    (ctx.recordResult w name success now).taskState = w.taskState := by
  unfold recordResult
  split <;> rfl

theorem isOk_of_ok {α : Type} {x : Except Exn α} {a : α} (h : x = .ok a) : x.isOk := by
  rw [h]
  rfl

theorem not_isOk_of_error {α : Type} {x : Except Exn α} {exn : Exn} (h : x = .error exn) :
    ¬ x.isOk := by
  rw [h]
  exact Bool.false_ne_true

/-- A snapshot is taken for risky tools only. -/
theorem snapshot_isOk_iff {risky : Bool} {snapshot : Except Exn Snapshot} {before : Snapshot} :
    (if risky then snapshot else .ok before).isOk ↔ (risky = true → snapshot.isOk) := by
  cases risky with
  | true => simp
  | false => simp [Except.isOk, Except.toBool]

/-- The `try` block gets as far as completing its claim. -/
def AttemptReaches (env : Answers A) (tool : Tool) (calls : List A) : Prop :=
  (calls.mapM env.run).isOk ∧ (tool.risky = true → env.snapshotAfter.isOk) ∧ env.fingerprint.isOk

/-- The error handler gets as far as completing the claim. -/
def HandlerReaches (env : Answers A) (tool : Tool) : Prop :=
  (tool.risky = true → env.handler.snapshot.isOk) ∧ env.handler.fingerprint.isOk

/-- A `try` block leaves the world alone, unless it got as far as completing the
claim and recording the result. -/
theorem attempt_cases (ctx : ToolContext A) (w : World) (env : Answers A) (name : String)
    (tool : Tool) (c : ReplayClaim) (calls : List A) (formatResult : List String → String)
    (before : Snapshot) :
    (¬ AttemptReaches env tool calls ∧
      ∃ exn, ctx.attempt w env name tool c calls formatResult before = (w, .error exn)) ∨
    (AttemptReaches env tool calls ∧ ∃ metadata exn,
      complete w c env.validateResult.1 metadata env.completeFailure env.timestamp =
        .error exn ∧
      ctx.attempt w env name tool c calls formatResult before = (w, .error exn)) ∨
    (AttemptReaches env tool calls ∧ ∃ metadata metadata' w₁,
      complete w c env.validateResult.1 metadata env.completeFailure env.timestamp =
        .ok (w₁, metadata') ∧
      (ctx.attempt w env name tool c calls formatResult before).1 =
        ctx.recordResult w₁ name env.validateResult.1 env.failureClock) := by
  unfold attempt
  split
  · next exn hrun =>
      exact Or.inl ⟨fun h => not_isOk_of_error hrun h.1, exn, rfl⟩
  · next results hrun =>
      split
      · next exn hafter =>
          refine Or.inl ⟨fun h => ?_, exn, rfl⟩
          exact not_isOk_of_error hafter (snapshot_isOk_iff.mpr h.2.1)
      · next after hafter =>
          have hsnapshot := snapshot_isOk_iff.mp (isOk_of_ok hafter)
          split
          · next exn hfinger =>
              exact Or.inl ⟨fun h => not_isOk_of_error hfinger h.2.2, exn, rfl⟩
          · next fingerprint hfinger =>
              have hreaches : AttemptReaches env tool calls :=
                ⟨isOk_of_ok hrun, hsnapshot, isOk_of_ok hfinger⟩
              simp only
              split
              · next exn hcomplete =>
                  exact Or.inr (Or.inl ⟨hreaches, _, exn, hcomplete, rfl⟩)
              · next w₁ metadata' hcomplete =>
                  refine Or.inr (Or.inr ⟨hreaches, _, metadata', w₁, hcomplete, ?_⟩)
                  split
                  · rfl
                  · split
                    · rfl
                    · rfl

theorem recover_cases (ctx : ToolContext A) (w : World) (env : Answers A) (name : String)
    (tool : Tool) (c : ReplayClaim) (before : Snapshot) (exn : Exn) :
    (¬ HandlerReaches env tool ∧ (ctx.recover w env name tool c before exn).1 = w) ∨
    (HandlerReaches env tool ∧ ∃ metadata exn',
      complete w c false metadata env.handler.completeFailure env.timestamp = .error exn' ∧
      (ctx.recover w env name tool c before exn).1 = w) ∨
    (HandlerReaches env tool ∧ ∃ metadata metadata' w₁,
      complete w c false metadata env.handler.completeFailure env.timestamp =
        .ok (w₁, metadata') ∧
      (ctx.recover w env name tool c before exn).1 =
        ctx.recordResult w₁ name false env.handler.failureClock) := by
  unfold recover
  split
  · next exn' hafter =>
      refine Or.inl ⟨fun h => ?_, rfl⟩
      exact not_isOk_of_error hafter (snapshot_isOk_iff.mpr h.1)
  · next after hafter =>
      have hsnapshot := snapshot_isOk_iff.mp (isOk_of_ok hafter)
      split
      · next exn' hfinger =>
          exact Or.inl ⟨fun h => not_isOk_of_error hfinger h.2, rfl⟩
      · next fingerprint hfinger =>
          have hreaches : HandlerReaches env tool := ⟨hsnapshot, isOk_of_ok hfinger⟩
          simp only
          split
          · next exn' hcomplete =>
              exact Or.inr (Or.inl ⟨hreaches, _, exn', hcomplete, rfl⟩)
          · next w₁ metadata' hcomplete =>
              refine Or.inr (Or.inr ⟨hreaches, _, metadata', w₁, hcomplete, ?_⟩)
              split
              · rfl
              · rfl

/-- What every completion and every recorded result respects, a call with an
accepted claim respects. -/
theorem runClaimed_related {R : World → World → Prop} (hrefl : ∀ w, R w w)
    (htrans : ∀ {a b c}, R a b → R b c → R a c) {c : ReplayClaim}
    (hcomplete : ∀ {w w' success metadata metadata' failure timestamp},
      complete w c success metadata failure timestamp = .ok (w', metadata') → R w w')
    (hrecord : ∀ w success now, R w (ctx.recordResult w name success now))
    {ledgerClaim : Option RunStore.Claim} :
    R w (ctx.runClaimed w env name args tool c ledgerClaim calls formatResult).1 := by
  unfold runClaimed
  split
  · exact hrefl w
  · next before _ =>
      have hattempt : R w (ctx.attempt w env name tool c
          (if calls.isEmpty then [args] else calls) formatResult before).1 := by
        rcases attempt_cases ctx w env name tool c (if calls.isEmpty then [args] else calls)
          formatResult before with ⟨-, exn, heq⟩ | ⟨-, _, exn, -, heq⟩ | ⟨-, _, _, w₁, hok, heq⟩
        · rw [heq]
          exact hrefl w
        · rw [heq]
          exact hrefl w
        · rw [heq]
          exact htrans (hcomplete hok) (hrecord w₁ _ _)
      split
      · next w₁ result metadata hatt =>
          rw [hatt] at hattempt
          exact hattempt
      · next w₁ exn hatt =>
          rw [hatt] at hattempt
          refine htrans hattempt ?_
          rcases recover_cases ctx w₁ env name tool c before exn with
            ⟨-, heq⟩ | ⟨-, _, _, -, heq⟩ | ⟨-, _, _, w₂, hok, heq⟩
          · rw [heq]
            exact hrefl w₁
          · rw [heq]
            exact hrefl w₁
          · rw [heq]
            exact htrans (hcomplete hok) (hrecord w₂ _ _)

theorem runClaimed_ledgerClaim {c : ReplayClaim} {ledgerClaim : Option RunStore.Claim} :
    (ctx.runClaimed w env name args tool c ledgerClaim calls formatResult).2.ledgerClaim =
      ledgerClaim := by
  unfold runClaimed
  split
  · rfl
  · split
    · rfl
    · rfl

/-- A call that reaches the ledger raises there, is refused there, or goes on with
a claim that nothing refused. -/
theorem perform_cases (ctx : ToolContext A) (w : World) (env : Answers A) (name : String)
    (args : A) (operationKey : String) (tool : Tool) (calls : List A)
    (formatResult : List String → String) :
    (∃ exn, ctx.claim w env name args operationKey tool.sideEffect = .error exn ∧
      ctx.perform w env name args operationKey tool calls formatResult =
        (w, { result := .error exn })) ∨
    (∃ code message details ledgerClaim w',
      ctx.claim w env name args operationKey tool.sideEffect =
        .ok (.refused code message details, ledgerClaim, w') ∧
      ctx.perform w env name args operationKey tool calls formatResult =
        (w', ctx.reject env code message (some tool) .blocked none (some details)
          ledgerClaim)) ∨
    (∃ c ledgerClaim w', (∀ code message details, c ≠ .refused code message details) ∧
      ctx.claim w env name args operationKey tool.sideEffect = .ok (c, ledgerClaim, w') ∧
      ctx.perform w env name args operationKey tool calls formatResult =
        ctx.runClaimed w' env name args tool c ledgerClaim calls formatResult) := by
  unfold perform
  split
  · next exn hclaim => exact Or.inl ⟨exn, hclaim, rfl⟩
  · next code message details ledgerClaim w' hclaim =>
      exact Or.inr (Or.inl ⟨code, message, details, ledgerClaim, w', hclaim, rfl⟩)
  · next c ledgerClaim w' hnot hclaim =>
      exact Or.inr (Or.inr ⟨c, ledgerClaim, w',
        fun code message details hc => hnot code message details hc, hclaim, rfl⟩)

/-- An admitted call that the breaker or the ledger refuses. -/
def Refused (ctx : ToolContext A) (w : World) (call : Call A) (env : Answers A) : Prop :=
  ∃ tool calls formatResult, ctx.tools.lookup (strip call.name) = some tool ∧
    ctx.gate env (strip call.name) tool = .admitted calls formatResult ∧
    ((tool.circuitBreaker = true ∧ (w.breaker.allow (strip call.name) env.allowClock).1 = false) ∨
     ((tool.circuitBreaker = true → (w.breaker.allow (strip call.name) env.allowClock).1 = true) ∧
      tool.sideEffect = true ∧ strip call.operationKey ≠ "" ∧ env.claimFailure = none ∧
      ∃ previous, (w.store.visibleLedger w.taskState).lookup (strip call.operationKey) =
        some previous))

theorem runClaimed_entered {c : ReplayClaim} {ledgerClaim : Option RunStore.Claim}
    {metadata : Metadata}
    (h : (ctx.runClaimed w env name args tool c ledgerClaim calls formatResult).2.metadata =
      some metadata) :
    (ctx.runClaimed w env name args tool c ledgerClaim calls formatResult).2.entered = true := by
  unfold runClaimed at h ⊢
  split
  · next hbefore =>
      rw [hbefore] at h
      cases h
  · split <;> rfl

theorem gate_answered {result : String} (h : ctx.gate env name tool = .answered result) :
    env.prepare = .ok (.answer result) := by
  unfold gate at h
  split at h
  · cases h
  · cases h
  · split at h
    · cases h
    · cases h
    · split at h
      · cases h
      · split at h
        · cases h
        · next hprepare =>
            cases h
            exact hprepare
        · split at h
          · cases h
          · split at h
            · split at h <;> cases h
            · cases h

/-- The ledger refuses a claim exactly when it holds the key. -/
theorem claim_refused_iff {c : ReplayClaim} {ledgerClaim : Option RunStore.Claim}
    {sideEffect : Bool}
    (h : ctx.claim w env name args (strip operationKey) sideEffect = .ok (c, ledgerClaim, w')) :
    (∃ code message details, c = .refused code message details) ↔
      (sideEffect = true ∧ strip operationKey ≠ "" ∧ env.claimFailure = none ∧
        ∃ previous, (w.store.visibleLedger w.taskState).lookup (strip operationKey) =
          some previous) := by
  rcases claim_cases h with ⟨hfree, rfl, -, -⟩ | ⟨⟨hside, hkey⟩, hfail, k, store, taskState, hk, -,
    -, hcases⟩
  · refine iff_of_false ?_ fun hneeds => hfree ⟨hneeds.1, hneeds.2.1⟩
    rintro ⟨code, message, details, hc⟩
    cases hc
  · rcases RunStore.claimSideEffectOperation_cases hk with
      ⟨previous, hprevious, hclaimed, -⟩ | ⟨hnone, hclaimed, -⟩
    · rw [strip_strip] at hprevious
      refine iff_of_true ?_ ⟨hside, hkey, hfail, previous, hprevious⟩
      rcases hcases with ⟨hclaimed', -⟩ | ⟨-, details, hc⟩
      · rw [hclaimed] at hclaimed'
        cases hclaimed'
      · exact ⟨_, _, details, hc⟩
    · rw [strip_strip] at hnone
      refine iff_of_false ?_ ?_
      · rintro ⟨code, message, details, hc⟩
        rcases hcases with ⟨-, howned⟩ | ⟨hclaimed', -⟩
        · rw [hc] at howned
          cases howned
        · rw [hclaimed] at hclaimed'
          cases hclaimed'
      · rintro ⟨-, -, -, previous, hprevious⟩
        rw [hnone] at hprevious
        cases hprevious

/-- A call that the breaker lets through is refused by the ledger or not at all. -/
theorem refused_iff_of_allowed (htool : ctx.tools.lookup (strip call.name) = some tool)
    (hgate : ctx.gate env (strip call.name) tool = .admitted calls formatResult)
    (hallow : tool.circuitBreaker = true →
      (w.breaker.allow (strip call.name) env.allowClock).1 = true) :
    ctx.Refused w call env ↔
      (tool.sideEffect = true ∧ strip call.operationKey ≠ "" ∧ env.claimFailure = none ∧
        ∃ previous, (w.store.visibleLedger w.taskState).lookup (strip call.operationKey) =
          some previous) := by
  constructor
  · rintro ⟨tool', _, _, htool', -, ⟨hcb, hno⟩ | ⟨-, hledger⟩⟩
    · cases htool.symm.trans htool'
      rw [hallow hcb] at hno
      cases hno
    · cases htool.symm.trans htool'
      exact hledger
  · intro hledger
    exact ⟨tool, calls, formatResult, htool, hgate, Or.inr ⟨hallow, hledger⟩⟩

/-- A call that is not rejected and that the observer does not answer itself enters its
tool exactly when neither the breaker nor the ledger refuses it. -/
theorem execute_entered_iff {metadata : Metadata}
    (hmeta : (ctx.execute w call env).2.metadata = some metadata)
    (hstatus : metadata.toolStatus ≠ .rejected)
    (hprepare : ∀ result, env.prepare ≠ .ok (.answer result)) :
    (ctx.execute w call env).2.entered = true ↔ ¬ ctx.Refused w call env := by
  rcases execute_cases ctx w call env with ⟨hgate, -, hstopped⟩ |
    ⟨tool, calls, formatResult, htool, hgate, hbreaker | ⟨hallow, hexec⟩⟩
  · exfalso
    unfold execute at hmeta
    dsimp only at hmeta
    split at hmeta
    · cases hmeta
      exact hstatus rfl
    · next tool htool =>
        split at hmeta
        · cases hmeta
        · cases hmeta
          exact hstatus rfl
        · next result hanswered => exact hprepare result (gate_answered hanswered)
        · next calls formatResult hadmitted =>
            exact hgate tool htool calls formatResult hadmitted
  · obtain ⟨hcb, hallow, -, hstopped⟩ := hbreaker
    rw [hstopped.2]
    refine iff_of_false Bool.false_ne_true fun hnot => hnot ?_
    exact ⟨tool, calls, formatResult, htool, hgate, Or.inl ⟨hcb, hallow⟩⟩
  · rw [hexec] at hmeta ⊢
    rw [refused_iff_of_allowed htool hgate hallow]
    rcases perform_cases ctx (afterAllow w env (strip call.name) tool) env (strip call.name)
      call.args (strip call.operationKey) tool calls formatResult with
      ⟨exn, -, hperform⟩ | ⟨code, message, details, ledgerClaim, w', hclaim, hperform⟩ |
      ⟨c, ledgerClaim, w', hfree, hclaim, hperform⟩
    · rw [hperform] at hmeta
      cases hmeta
    · rw [hperform]
      refine iff_of_false Bool.false_ne_true fun hnot => hnot ?_
      exact (claim_refused_iff hclaim).mp ⟨code, message, details, rfl⟩
    · rw [hperform] at hmeta ⊢
      refine iff_of_true (runClaimed_entered hmeta) fun hledger => ?_
      obtain ⟨code, message, details, hc⟩ := (claim_refused_iff hclaim).mpr hledger
      exact hfree code message details hc

end ToolContext

/-- What the loop does to the run's state: a tool call, or one of the steps
between two calls. -/
inductive Step (A : Type)
  | call (call : Call A) (env : Answers A)
  | writeTaskState
  | recordAttempt
  | recordTool (name : String)

namespace ToolContext

variable {A : Type}

/-- One run of the loop, as its tool calls and its state writes see it. -/
def turn (ctx : ToolContext A) : Machine World (Step A) (Option Report) where
  step w
    | .call call env => ((ctx.execute w call env).1, some (ctx.execute w call env).2)
    | .writeTaskState => ({ w with store := w.store.writeTaskState w.taskState }, none)
    | .recordAttempt => ({ w with taskState := w.taskState.recordAttempt }, none)
    | .recordTool name => ({ w with taskState := w.taskState.recordTool name }, none)

end ToolContext

namespace World

/-- The world after `start_run` wrote the new run's state file. -/
def startRun (breaker : ToolCircuitBreaker) (store : RunStore) (taskState : TaskState) : World :=
  { breaker, store := store.writeTaskState taskState, taskState }

/-- The ledger that the next claim of the run reads. -/
def ledger (w : World) : Ledger := w.store.visibleLedger w.taskState

end World

end Tooling
end CodeCub

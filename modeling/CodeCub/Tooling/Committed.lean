import CodeCub.Tooling.Probe

/-!
# Committed side effects

`replay.complete` stores `completed` inside the `try` block, and the observers run
behind it in the same block.  An observer that raises there sends the call into the
error handler, which completes the same claim a second time, as a failure.
`KeepsCommit` names the calls this does not happen to, and a run keeps what it has
committed exactly when each of its calls is one of them.
-/

namespace CodeCub
namespace Tooling

open Python Runs

namespace World

/-- The state that the stored ledger gives the key. -/
def operationState (w : World) (key : String) : Option OperationState :=
  (w.ledger.lookup (strip key)).map Operation.state

/-- Only `key` may differ between the ledgers of the two worlds. -/
def Spares (key : String) (w w' : World) : Prop :=
  ∀ other, other ≠ key → w'.ledger.lookup other = w.ledger.lookup other

theorem Spares.refl (key : String) (w : World) : Spares key w w := fun _ _ => rfl

theorem Spares.trans {key : String} {a b c : World} (hab : Spares key a b)
    (hbc : Spares key b c) : Spares key a c :=
  fun other ho => (hbc other ho).trans (hab other ho)

theorem ledger_of_same {w w' : World} (hstore : w'.store = w.store)
    (htask : w'.taskState = w.taskState) : w'.ledger = w.ledger := by
  unfold ledger
  rw [hstore, htask]

/-- A claim through a handle changes no entry but the claimed one. -/
theorem spares_claim {w : World} {operationKey toolName argsDigest : String}
    {timestamp : Timestamp} {k : RunStore.Claim} {store : RunStore} {taskState : TaskState}
    (h : w.store.claimSideEffectOperation w.taskState operationKey toolName argsDigest timestamp =
      .ok (k, store, taskState)) :
    Spares (strip operationKey) w { w with store, taskState } ∧
      (k.claimed = false → World.ledger { w with store, taskState } = w.ledger) := by
  rcases RunStore.claimSideEffectOperation_cases h with
    ⟨previous, -, -, -, -, rfl, rfl⟩ | ⟨hnone, hclaimed, ops, hops, rfl, rfl, -⟩
  · have hledger : World.ledger { w with
        taskState := { w.taskState with
          sideEffectOperations := RunStore.visibleLedger w.store w.taskState } } = w.ledger := by
      unfold ledger RunStore.visibleLedger RunStore.loadTaskStatePayload
      cases w.store.lookup w.taskState.runId with
      | none => rfl
      | some payload => rfl
    refine ⟨fun other _ => ?_, fun _ => hledger⟩
    rw [hledger]
  · refine ⟨fun other ho => ?_, fun hnot => ?_⟩
    · rw [ledger_of_insert, hops, AList.lookup_insert_ne ho]
      rfl
    · rw [hclaimed] at hnot
      cases hnot

theorem spares_update {w : World} {operationKey : String} {state : OperationState}
    {result : Option ResultMetadata} {timestamp : Timestamp} {store : RunStore}
    {taskState : TaskState}
    (h : w.store.updateSideEffectOperation w.taskState operationKey state result timestamp =
      .ok (store, taskState)) :
    Spares (strip operationKey) w { w with store, taskState } ∧
      World.operationState { w with store, taskState } operationKey = some state := by
  obtain ⟨entry, ops, hentry, hops, rfl, rfl⟩ := RunStore.updateSideEffectOperation_cases h
  refine ⟨fun other ho => ?_, ?_⟩
  · rw [ledger_of_insert, hops, AList.lookup_insert_ne ho]
    rfl
  · rw [operationState, ledger_of_insert, hops, AList.lookup_insert]
    rfl

end World

namespace ToolContext

variable {A : Type} {ctx : ToolContext A} {w w' : World} {env : Answers A} {name : String}
  {args : A} {operationKey key digest : String} {tool : Tool} {calls : List A}
  {formatResult : List String → String} {call : Call A}

/-! ## Completing a claim -/

theorem complete_spares {success : Bool} {metadata metadata' : Metadata} {failure : Option Exn}
    {timestamp : Timestamp}
    (h : complete w (.owned key digest) success metadata failure timestamp = .ok (w', metadata')) :
    World.Spares (strip key) w w' ∧
      w'.operationState key = some (if success then .completed else .uncertain) := by
  simp only [complete] at h
  split at h
  · cases h
  · split at h
    · cases h
    · next store taskState hup =>
        cases h
        exact World.spares_update hup

theorem recordResult_ledger (success : Bool) (now : ℚ) :
    (ctx.recordResult w name success now).ledger = w.ledger :=
  World.ledger_of_same (by simp) (by simp)

theorem recordResult_operationState (success : Bool) (now : ℚ) :
    (ctx.recordResult w name success now).operationState key = w.operationState key := by
  unfold World.operationState
  rw [recordResult_ledger]

/-! ## The `try` block up to its completion -/

/-- What the `try` block has done when `replay.complete` returns: the world, the
metadata and the results. -/
def commit (w : World) (env : Answers A) (tool : Tool) (claim : ReplayClaim) (calls : List A)
    (before : Snapshot) : Except Exn (World × Metadata × List String) :=
  match calls.mapM env.run with
  | .error exn => .error exn
  | .ok results =>
  match (if tool.risky then env.snapshotAfter else .ok before) with
  | .error exn => .error exn
  | .ok after =>
  match env.fingerprint with
  | .error exn => .error exn
  | .ok fingerprint =>
  let (affected, diff) := Snapshot.diff before after
  let (businessSuccess, reason) := env.validateResult
  let metadata : Metadata :=
    { toolStatus := if businessSuccess then .ok else if affected.isEmpty then .error
        else .partialSuccess
      toolErrorCode := if businessSuccess then .none else .toolBusinessFailure
      toolExecutionSuccess := some true
      toolBusinessSuccess := some businessSuccess
      toolResultValidationFailed := some !businessSuccess
      toolResultFailureReason := some reason
      riskLevel := riskLevel tool
      readOnly := !tool.risky
      affectedPaths := affected
      workspaceChanged := !affected.isEmpty
      workspaceFingerprint := some fingerprint
      diffSummary := diff }
  match complete w claim businessSuccess metadata env.completeFailure env.timestamp with
  | .error exn => .error exn
  | .ok (w, metadata) => .ok (w, metadata, results)

/-- Behind the completion the `try` block records the result and asks the observers. -/
theorem attempt_eq_commit (ctx : ToolContext A) (w : World) (env : Answers A) (name : String)
    (tool : Tool) (c : ReplayClaim) (calls : List A) (formatResult : List String → String)
    (before : Snapshot) :
    ctx.attempt w env name tool c calls formatResult before =
      match commit w env tool c calls before with
      | .error exn => (w, .error exn)
      | .ok (w, metadata, results) =>
          (ctx.recordResult w name env.validateResult.1 env.failureClock,
            match env.finalize, env.record with
            | .error exn, _ => .error exn
            | .ok (), .error exn => .error exn
            | .ok (), .ok () => .ok (formatResult results, metadata)) := by
  unfold attempt commit
  cases calls.mapM env.run with
  | error exn => rfl
  | ok results =>
      cases (if tool.risky then env.snapshotAfter else .ok before) with
      | error exn => rfl
      | ok after =>
          cases env.fingerprint with
          | error exn => rfl
          | ok fingerprint =>
              dsimp only
              split
              · next exn hcomplete => simp only [hcomplete]
              · next w₁ metadata hcomplete =>
                  simp only [hcomplete]
                  cases env.finalize with
                  | error exn => rfl
                  | ok _ =>
                      cases env.record with
                      | error exn => rfl
                      | ok _ => rfl

theorem commit_complete {c : ReplayClaim} {before : Snapshot} {metadata : Metadata}
    {results : List String} {stored : World}
    (h : commit w env tool c calls before = .ok (stored, metadata, results)) :
    ∃ metadata', complete w c env.validateResult.1 metadata' env.completeFailure env.timestamp =
      .ok (stored, metadata) := by
  unfold commit at h
  split at h
  · cases h
  · split at h
    · cases h
    · split at h
      · cases h
      · dsimp only at h
        split at h
        · cases h
        · next hcomplete =>
            cases h
            exact ⟨_, hcomplete⟩

/-! ## Calls that commit -/

/-- The call went through its gates, claimed `key`, and `replay.complete` has just stored
`completed` under it: `stored` is the world at that point. -/
def Commits (ctx : ToolContext A) (w : World) (call : Call A) (env : Answers A) (key : String)
    (stored : World) : Prop :=
  ∃ tool calls formatResult digest ledgerClaim claimed before metadata results,
    ctx.tools.lookup (strip call.name) = some tool ∧
    ctx.gate env (strip call.name) tool = .admitted calls formatResult ∧
    (tool.circuitBreaker = true → (w.breaker.allow (strip call.name) env.allowClock).1 = true) ∧
    ctx.claim (afterAllow w env (strip call.name) tool) env (strip call.name) call.args
      (strip call.operationKey) tool.sideEffect = .ok (.owned key digest, ledgerClaim, claimed) ∧
    (if tool.risky then env.snapshotBefore else .ok ∅) = .ok before ∧
    commit claimed env tool (.owned key digest) (if calls.isEmpty then [call.args] else calls)
      before = .ok (stored, metadata, results) ∧
    env.validateResult.1 = true

/-- Neither observer raises behind the completion. -/
def ObserversReturn (env : Answers A) : Prop := env.finalize.isOk ∧ env.record.isOk

/-- The error handler would raise before it has completed the claim: in its snapshot, its
fingerprint or its ledger write. -/
def HandlerStops (ctx : ToolContext A) (call : Call A) (env : Answers A) : Prop :=
  ∀ tool, ctx.tools.lookup (strip call.name) = some tool → ¬ HandlerRecords env tool True

/-- No call that has committed goes on into a handler that completes its claim again. -/
def KeepsCommit (ctx : ToolContext A) (w : World) : Step A → Prop
  | .call call env => (∃ key stored, ctx.Commits w call env key stored) →
      ObserversReturn env ∨ ctx.HandlerStops call env
  | _ => True

/-! ## What a call leaves behind -/

/-- A committed call ends with its success recorded, or went on into the handler. -/
theorem commits_execute {stored : World} (h : ctx.Commits w call env key stored) :
    stored.operationState key = some .completed ∧
      ∃ tool digest before, ctx.tools.lookup (strip call.name) = some tool ∧
        ((ObserversReturn env ∧ (ctx.execute w call env).1 =
            ctx.recordResult stored (strip call.name) true env.failureClock) ∨
          (¬ ObserversReturn env ∧ ∃ exn, (ctx.execute w call env).1 =
            (ctx.recover (ctx.recordResult stored (strip call.name) true env.failureClock) env
              (strip call.name) tool (.owned key digest) before exn).1)) := by
  obtain ⟨tool, calls, formatResult, digest, ledgerClaim, claimed, before, metadata, results,
    htool, hgate, hallow, hclaim, hbefore, hcommit, hsuccess⟩ := h
  obtain ⟨metadata', hcomplete⟩ := commit_complete hcommit
  rw [hsuccess] at hcomplete
  refine ⟨(complete_spares hcomplete).2, tool, digest, before, htool, ?_⟩
  have hexec : ctx.execute w call env = ctx.runClaimed claimed env (strip call.name) call.args tool
      (.owned key digest) ledgerClaim calls formatResult := by
    rcases execute_cases ctx w call env with
      ⟨hnot, -⟩ | ⟨tool', calls', format', htool', hgate', ⟨hcb, hno, -⟩ | ⟨-, heq⟩⟩
    · exact absurd hgate (hnot tool htool calls formatResult)
    · cases htool.symm.trans htool'
      rw [hallow hcb] at hno
      cases hno
    · cases htool.symm.trans htool'
      cases hgate.symm.trans hgate'
      rw [heq, perform, hclaim]
  have hattempt := attempt_eq_commit ctx claimed env (strip call.name) tool (.owned key digest)
    (if calls.isEmpty then [call.args] else calls) formatResult before
  rw [hcommit, hsuccess] at hattempt
  dsimp only at hattempt
  rw [hexec, runClaimed, hbefore]
  dsimp only
  unfold ObserversReturn
  cases hfinalize : env.finalize with
  | error exn =>
      rw [hfinalize] at hattempt
      dsimp only at hattempt
      rw [hattempt]
      exact Or.inr ⟨fun hok => not_isOk_of_error rfl hok.1, exn, rfl⟩
  | ok _ =>
      cases hrecord : env.record with
      | error exn =>
          rw [hfinalize, hrecord] at hattempt
          dsimp only at hattempt
          rw [hattempt]
          exact Or.inr ⟨fun hok => not_isOk_of_error rfl hok.2, exn, rfl⟩
      | ok _ =>
          rw [hfinalize, hrecord] at hattempt
          dsimp only at hattempt
          rw [hattempt]
          exact Or.inl ⟨⟨rfl, rfl⟩, rfl⟩

/-- The handler, entered with a held claim, stores `uncertain` or changes nothing. -/
theorem recover_owned {before : Snapshot} {exn : Exn} (hheld : Held w (.owned key digest)) :
    (HandlerRecords env tool True ∧
      (ctx.recover w env name tool (.owned key digest) before exn).1.operationState key =
        some .uncertain) ∨
    (¬ HandlerRecords env tool True ∧
      (ctx.recover w env name tool (.owned key digest) before exn).1 = w) := by
  have howned : Owned (.owned key digest) := ⟨key, digest, rfl⟩
  rcases recover_cases ctx w env name tool (.owned key digest) before exn with
    ⟨hnot, heq⟩ | ⟨-, metadata, exn', hfail, heq⟩ | ⟨⟨hsnap, hfinger⟩, _, _, w₁, hok, heq⟩
  · exact Or.inr ⟨fun h => hnot ⟨h.1, h.2.1⟩, heq⟩
  · refine Or.inr ⟨fun h => complete_not_error hheld (fun _ => h.2.2 trivial) hfail, heq⟩
  · have hfailure := (complete_ok_iff hheld).mp ⟨_, hok⟩ howned
    refine Or.inl ⟨⟨hsnap, hfinger, fun _ => hfailure⟩, ?_⟩
    rw [heq, recordResult_operationState]
    exact (complete_spares hok).2

/-- After a committed call the key is still completed and the breaker is as the success
left it, unless an observer raised and the handler completed the claim again. -/
theorem commits_kept_iff {stored : World} (h : ctx.Commits w call env key stored) :
    ((ctx.execute w call env).1.operationState key = some .completed ∧
      (ctx.execute w call env).1.breaker =
        (ctx.recordResult stored (strip call.name) true env.failureClock).breaker) ↔
    (ObserversReturn env ∨ ctx.HandlerStops call env) := by
  obtain ⟨hstate, tool, digest, before, htool, ⟨hreturn, hworld⟩ | ⟨hraise, exn, hworld⟩⟩ :=
    commits_execute h
  · rw [hworld, recordResult_operationState]
    exact ⟨fun _ => Or.inl hreturn, fun _ => ⟨hstate, rfl⟩⟩
  · have hheld : Held (ctx.recordResult stored (strip call.name) true env.failureClock)
        (.owned key digest) := by
      intro key' digest' heq
      cases heq
      rw [recordResult_ledger]
      obtain ⟨entry, hentry, -⟩ := Option.map_eq_some_iff.mp hstate
      exact ⟨entry, hentry⟩
    rw [hworld]
    rcases @recover_owned A ctx _ env (strip call.name) key digest tool before exn hheld with
      ⟨hreach, hafter⟩ | ⟨hstop, hsame⟩
    · rw [hafter]
      refine ⟨fun hcompleted => (nomatch hcompleted.1), fun hkeep => ?_⟩
      rcases hkeep with hreturn | hstop
      · exact absurd hreturn hraise
      · exact absurd hreach (hstop tool htool)
    · rw [hsame, recordResult_operationState]
      refine ⟨fun _ => Or.inr fun tool' htool' => ?_, fun _ => ⟨hstate, rfl⟩⟩
      cases htool.symm.trans htool'
      exact hstop

/-! ## Later calls -/

/-- Every entry of the ledger is still there, as it was. -/
def KeepsEntries (w w' : World) : Prop :=
  ∀ key entry, w.ledger.lookup key = some entry → w'.ledger.lookup key = some entry

theorem KeepsEntries.of_eq (h : w'.ledger = w.ledger) : KeepsEntries w w' := by
  intro key entry hentry
  rw [h]
  exact hentry

theorem KeepsEntries.trans {a b c : World} (hab : KeepsEntries a b) (hbc : KeepsEntries b c) :
    KeepsEntries a c := fun key entry h => hbc key entry (hab key entry h)

theorem KeepsEntries.of_spares (h : World.Spares key w w')
    (hnone : w.ledger.lookup key = none) : KeepsEntries w w' := by
  intro other entry hentry
  have hne : other ≠ key := by
    intro heq
    rw [heq, hnone] at hentry
    cases hentry
  rw [h other hne]
  exact hentry

theorem KeepsEntries.operationState {state : OperationState} (h : KeepsEntries w w')
    (hstate : w.operationState key = some state) : w'.operationState key = some state := by
  obtain ⟨entry, hentry, hs⟩ := Option.map_eq_some_iff.mp hstate
  unfold World.operationState
  rw [h _ _ hentry]
  exact congrArg some hs

theorem runClaimed_spares {ledgerClaim : Option RunStore.Claim} :
    World.Spares (strip key) w
      (ctx.runClaimed w env name args tool (.owned key digest) ledgerClaim calls formatResult).1 :=
  runClaimed_related (World.Spares.refl _) World.Spares.trans
    (fun hcomplete => (complete_spares hcomplete).1)
    fun w success now other _ => by rw [recordResult_ledger]

/-- Without a key there is nothing to complete. -/
theorem runClaimed_free_ledger {ledgerClaim : Option RunStore.Claim} :
    (ctx.runClaimed w env name args tool .free ledgerClaim calls formatResult).1.ledger =
      w.ledger := by
  have hrelated := @runClaimed_related A ctx w env name args tool calls formatResult
    (fun a b => b.ledger = a.ledger) (fun _ => rfl) (fun hab hbc => hbc.trans hab) .free
    (by
      intro a b success metadata metadata' failure timestamp hcomplete
      rcases complete_cases hcomplete with ⟨-, rfl⟩ | ⟨_, _, _, _, _, _, hc, -⟩
      · rfl
      · cases hc)
    (fun w success now => recordResult_ledger success now) ledgerClaim
  exact hrelated

/-- The claim, the tool and the bookkeeping of one call leave known entries alone. -/
theorem perform_keepsEntries :
    KeepsEntries w
      (ctx.perform w env name args operationKey tool calls formatResult).1 := by
  rcases perform_cases ctx w env name args operationKey tool calls formatResult with
    ⟨exn, -, heq⟩ | ⟨code, message, details, ledgerClaim, w₁, hclaim, heq⟩ |
    ⟨c, ledgerClaim, w₁, hnot, hclaim, heq⟩
  · rw [heq]
    exact KeepsEntries.of_eq rfl
  · rw [heq]
    rcases claim_cases hclaim with ⟨-, -, -, rfl⟩ | ⟨-, -, k, store, taskState, hk, rfl, -, hcases⟩
    · exact KeepsEntries.of_eq rfl
    · rcases hcases with ⟨-, hc⟩ | ⟨hfalse, -⟩
      · cases hc
      · exact KeepsEntries.of_eq ((World.spares_claim hk).2 hfalse)
  · rw [heq]
    rcases claim_cases hclaim with
      ⟨-, rfl, -, rfl⟩ | ⟨-, -, k, store, taskState, hk, rfl, -, ⟨hclaimed, rfl⟩ | ⟨-, _, hc⟩⟩
    · exact KeepsEntries.of_eq runClaimed_free_ledger
    · refine KeepsEntries.of_spares
        ((World.spares_claim hk).1.trans (runClaimed_spares)) ?_
      rcases RunStore.claimSideEffectOperation_cases hk with ⟨previous, -, hno, -⟩ | ⟨hnone, -⟩
      · rw [hclaimed] at hno
        cases hno
      · exact hnone
    · exact absurd hc (hnot _ _ _)

/-- No later call changes an entry it finds in the ledger. -/
theorem execute_keepsEntries (ctx : ToolContext A) (w : World) (call : Call A)
    (env : Answers A) : KeepsEntries w (ctx.execute w call env).1 := by
  rcases execute_cases ctx w call env with
    ⟨-, heq, -⟩ | ⟨tool, calls, formatResult, -, -, ⟨-, -, heq, -⟩ | ⟨-, heq⟩⟩
  · rw [heq]
    exact KeepsEntries.of_eq rfl
  · rw [heq]
    exact KeepsEntries.of_eq rfl
  · rw [heq]
    exact KeepsEntries.trans (b := afterAllow w env (strip call.name) tool)
      (KeepsEntries.of_eq rfl) perform_keepsEntries

theorem next_keepsEntries (ctx : ToolContext A) (step : Step A) (hsync : w.InSync) :
    KeepsEntries w (ctx.turn.next w step) := by
  cases step with
  | call call env => exact execute_keepsEntries ctx w call env
  | writeTaskState =>
      refine KeepsEntries.of_eq ?_
      have hledger : World.ledger { w with store := w.store.writeTaskState w.taskState } =
          w.taskState.sideEffectOperations := by
        simp [World.ledger, RunStore.writeTaskState]
      exact hledger.trans hsync.symm
  | recordAttempt =>
      refine KeepsEntries.of_eq ?_
      show RunStore.visibleLedger w.store w.taskState.recordAttempt = _
      unfold World.ledger RunStore.visibleLedger RunStore.loadTaskStatePayload
      show ((w.store.lookup w.taskState.runId).getD w.taskState.recordAttempt).sideEffectOperations = _
      cases w.store.lookup w.taskState.runId with
      | none => rfl
      | some payload => rfl
  | recordTool name =>
      refine KeepsEntries.of_eq ?_
      unfold World.ledger RunStore.visibleLedger RunStore.loadTaskStatePayload
      show ((w.store.lookup w.taskState.runId).getD
        (w.taskState.recordTool name)).sideEffectOperations = _
      cases w.store.lookup w.taskState.runId with
      | none => rfl
      | some payload => rfl

theorem run_keepsEntries (ctx : ToolContext A) (steps : List (Step A)) (hsync : w.InSync) :
    KeepsEntries w (ctx.turn.run w steps) := by
  induction steps generalizing w with
  | nil => exact KeepsEntries.of_eq rfl
  | cons step steps ih =>
      exact (next_keepsEntries ctx step hsync).trans (ih (turn_evolves ctx w step hsync).1)

/-! ## Whole runs -/

/-- What the run has once stored as completed stays completed in every world it reaches, and
the breaker is left as the success of that call left it. -/
def CommitsStay (ctx : ToolContext A) (w : World) (steps : List (Step A)) : Prop :=
  ∀ before call env after, steps = before ++ .call call env :: after → ∀ key stored,
    ctx.Commits (ctx.turn.run w before) call env key stored →
      (∀ later, later <+: after →
        (ctx.turn.run (ctx.execute (ctx.turn.run w before) call env).1 later).operationState key =
          some .completed) ∧
      (ctx.execute (ctx.turn.run w before) call env).1.breaker =
        (ctx.recordResult stored (strip call.name) true env.failureClock).breaker

/-- A run keeps what it has committed exactly when no committed call goes on into a handler
that completes its claim again. -/
theorem commits_stay_iff (ctx : ToolContext A) (breaker : ToolCircuitBreaker) (store : RunStore)
    (taskState : TaskState) (steps : List (Step A)) :
    ctx.CommitsStay (World.startRun breaker store taskState) steps ↔
      ctx.turn.Along ctx.KeepsCommit (World.startRun breaker store taskState) steps := by
  rw [Machine.along_iff_split]
  constructor
  · intro h before step after hsplit
    cases step with
    | call call env =>
        rintro ⟨key, stored, hcommits⟩
        obtain ⟨hlater, hbreaker⟩ := h before call env after hsplit key stored hcommits
        exact (commits_kept_iff hcommits).mp ⟨hlater [] List.nil_prefix, hbreaker⟩
    | writeTaskState => trivial
    | recordAttempt => trivial
    | recordTool name => trivial
  · intro h before call env after hsplit key stored hcommits
    obtain ⟨hstate, hbreaker⟩ :=
      (commits_kept_iff hcommits).mpr (h before (.call call env) after hsplit ⟨key, stored, hcommits⟩)
    refine ⟨fun later _ => ?_, hbreaker⟩
    have hsync := (run_evolves ctx _ before (World.startRun_inSync breaker store taskState)).1
    have hsync' := (execute_evolves ctx _ call env hsync).1
    exact (run_keepsEntries ctx later hsync').operationState hstate

/-- The notification goes out and is stored as completed, and then the code index cannot be
refreshed. -/
def unindexedAnswers : Answers String :=
  { run := fun _ => .ok "sent", record := .error "No such file or directory: 'notes.md'" }

theorem unindexed_notification_uncommitted :
    ¬ notifyContext.CommitsStay notifyStart [.call notifyCall unindexedAnswers] := by
  intro h
  have hcommits : ∃ stored, notifyContext.Commits notifyStart notifyCall unindexedAnswers "key-1"
      stored := by
    refine ⟨_, { risky := true, sideEffect := true }, [], defaultFormat, _, _, _, _, _, _, rfl, rfl,
      fun _ => rfl, rfl, rfl, rfl, rfl⟩
  obtain ⟨stored, hcommits⟩ := hcommits
  have hstate := (h [] notifyCall unindexedAnswers [] rfl "key-1" stored hcommits).1 []
    List.nil_prefix
  have huncertain : (notifyContext.execute notifyStart notifyCall
      unindexedAnswers).1.operationState "key-1" = some .uncertain := by
    decide +kernel
  rw [show notifyContext.turn.run (notifyContext.execute (notifyContext.turn.run notifyStart [])
    notifyCall unindexedAnswers).1 [] = (notifyContext.execute notifyStart notifyCall
      unindexedAnswers).1 from rfl, huncertain] at hstate
  cases hstate

end ToolContext
end Tooling
end CodeCub

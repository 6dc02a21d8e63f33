import CodeCub.Tooling.Executor

/-!
# At most one execution per operation key

Within one run the handle's ledger and the file agree, so no state write can
drop an entry.  From there the ledger only grows, and the first claim of a key
stands between the tool and every later call that carries it.
-/

namespace CodeCub
namespace Tooling

open Python Runs

namespace World

/-- The handle holds the ledger that the next claim will read. -/
def InSync (w : World) : Prop := w.ledger = w.taskState.sideEffectOperations

/-- What every step of a run does to the ledger. -/
def Evolves (w w' : World) : Prop := w.InSync → w'.InSync ∧ Ledger.Extends w.ledger w'.ledger

theorem startRun_inSync (breaker : ToolCircuitBreaker) (store : RunStore)
    (taskState : TaskState) : (startRun breaker store taskState).InSync := by
  simp [InSync, ledger, startRun, RunStore.writeTaskState]

example : (startRun {} ∅ { runId := "run-1", taskId := "task-1", userRequest := "" }).ledger.lookup
    "call-1" = none := by
  decide +kernel

theorem Evolves.refl (w : World) : Evolves w w :=
  fun hsync => ⟨hsync, Ledger.Extends.refl _⟩

theorem Evolves.trans {a b c : World} (hab : Evolves a b) (hbc : Evolves b c) :
    Evolves a c := by
  intro hsync
  obtain ⟨hb, hext⟩ := hab hsync
  obtain ⟨hc, hext'⟩ := hbc hb
  exact ⟨hc, hext.trans hext'⟩

/-- A step that leaves the file alone, and the run id and the ledger of the
handle. -/
theorem evolves_of_same {w w' : World} (hstore : w'.store = w.store)
    (hrun : w'.taskState.runId = w.taskState.runId)
    (hops : w'.taskState.sideEffectOperations = w.taskState.sideEffectOperations) :
    Evolves w w' := by
  have hledger : w'.ledger = w.ledger := by
    unfold ledger RunStore.visibleLedger RunStore.loadTaskStatePayload
    rw [hstore, hrun]
    cases w.store.lookup w.taskState.runId with
    | none => exact hops
    | some payload => rfl
  intro hsync
  refine ⟨?_, ?_⟩
  · unfold InSync
    rw [hledger, hops]
    exact hsync
  · rw [hledger]
    exact Ledger.Extends.refl _

/-- Writing the handle back is harmless while the two copies agree. -/
theorem evolves_writeTaskState (w : World) :
    Evolves w { w with store := w.store.writeTaskState w.taskState } := by
  intro hsync
  have hledger : World.ledger { w with store := w.store.writeTaskState w.taskState } =
      w.taskState.sideEffectOperations := by
    simp [ledger, RunStore.writeTaskState]
  refine ⟨hledger, ?_⟩
  rw [hledger, ← hsync]
  exact Ledger.Extends.refl _

/-- The file and the handle both hold `ops` after a claim or an update. -/
theorem ledger_of_insert {breaker : ToolCircuitBreaker} {store : RunStore}
    {taskState payload : TaskState} {ops : Ledger} :
    World.ledger
      { breaker, store := AList.insert taskState.runId { payload with sideEffectOperations := ops } store
        taskState := { taskState with sideEffectOperations := ops } } = ops := by
  simp [ledger, RunStore.visibleLedger, RunStore.loadTaskStatePayload]

theorem evolves_claim {w : World} {operationKey toolName argsDigest : String}
    {timestamp : Timestamp} {k : RunStore.Claim} {store : RunStore} {taskState : TaskState}
    (h : w.store.claimSideEffectOperation w.taskState operationKey toolName argsDigest timestamp =
      .ok (k, store, taskState)) :
    Evolves w { w with store, taskState } := by
  rcases RunStore.claimSideEffectOperation_cases h with
    ⟨previous, -, -, -, -, rfl, rfl⟩ | ⟨hnone, -, ops, hops, rfl, rfl, -⟩
  · intro hsync
    exact evolves_of_same (w := w) rfl rfl hsync hsync
  · intro _
    refine ⟨ledger_of_insert, ?_⟩
    rw [ledger_of_insert, hops]
    exact Ledger.extends_insert_of_lookup_eq_none _ hnone

theorem evolves_update {w : World} {operationKey : String} {state : OperationState}
    {result : Option ResultMetadata} {timestamp : Timestamp} {store : RunStore}
    {taskState : TaskState}
    (h : w.store.updateSideEffectOperation w.taskState operationKey state result timestamp =
      .ok (store, taskState)) :
    Evolves w { w with store, taskState } := by
  obtain ⟨entry, ops, hentry, hops, rfl, rfl⟩ := RunStore.updateSideEffectOperation_cases h
  intro _
  refine ⟨ledger_of_insert, ?_⟩
  rw [ledger_of_insert, hops]
  exact Ledger.extends_insert_of_sameIdentity hentry ⟨rfl, rfl⟩

end World

namespace ToolContext

variable {A : Type} {ctx : ToolContext A} {w w' : World} {env : Answers A} {name : String}
  {args : A} {operationKey : String} {tool : Tool} {calls : List A}
  {formatResult : List String → String}

theorem complete_evolves {c : ReplayClaim} {success : Bool} {metadata metadata' : Metadata}
    {failure : Option Exn} {timestamp : Timestamp}
    (h : complete w c success metadata failure timestamp = .ok (w', metadata')) :
    World.Evolves w w' := by
  rcases complete_cases h with
    ⟨-, rfl⟩ | ⟨key, digest, state, result, store, taskState, -, -, hup, rfl⟩
  · exact World.Evolves.refl _
  · exact World.evolves_update hup

theorem recordResult_evolves (success : Bool) (now : ℚ) :
    World.Evolves w (ctx.recordResult w name success now) :=
  World.evolves_of_same (recordResult_store ..) (by simp) (by simp)

theorem claim_evolves {sideEffect : Bool} {c : ReplayClaim}
    {ledgerClaim : Option RunStore.Claim}
    (h : ctx.claim w env name args operationKey sideEffect = .ok (c, ledgerClaim, w')) :
    World.Evolves w w' := by
  rcases claim_cases h with ⟨-, -, -, rfl⟩ | ⟨-, -, k, store, taskState, hk, rfl, -, -⟩
  · exact World.Evolves.refl _
  · exact World.evolves_claim hk

theorem runClaimed_evolves {c : ReplayClaim} {ledgerClaim : Option RunStore.Claim} :
    World.Evolves w (ctx.runClaimed w env name args tool c ledgerClaim calls formatResult).1 :=
  runClaimed_related World.Evolves.refl World.Evolves.trans complete_evolves
    fun _ success now => recordResult_evolves success now

theorem perform_evolves :
    World.Evolves w (ctx.perform w env name args operationKey tool calls formatResult).1 := by
  rcases perform_cases ctx w env name args operationKey tool calls formatResult with
    ⟨exn, -, heq⟩ | ⟨code, message, details, ledgerClaim, w₁, hclaim, heq⟩ |
    ⟨c, ledgerClaim, w₁, -, hclaim, heq⟩
  · rw [heq]
    exact World.Evolves.refl w
  · rw [heq]
    exact claim_evolves hclaim
  · rw [heq]
    exact (claim_evolves hclaim).trans runClaimed_evolves

theorem afterAllow_evolves : World.Evolves w (afterAllow w env name tool) :=
  World.evolves_of_same rfl rfl rfl

theorem execute_evolves (ctx : ToolContext A) (w : World) (call : Call A) (env : Answers A) :
    World.Evolves w (ctx.execute w call env).1 := by
  rcases execute_cases ctx w call env with
    ⟨-, heq, -⟩ | ⟨tool, calls, formatResult, -, -, ⟨-, -, heq, -⟩ | ⟨-, heq⟩⟩
  · rw [heq]
    exact World.Evolves.refl w
  · rw [heq]
    exact afterAllow_evolves
  · rw [heq]
    exact afterAllow_evolves.trans perform_evolves

/-- Every step of a run keeps the two ledgers together and loses no entry. -/
theorem turn_evolves (ctx : ToolContext A) (w : World) (step : Step A) :
    World.Evolves w (ctx.turn.next w step) := by
  cases step with
  | call call env => exact execute_evolves ctx w call env
  | writeTaskState => exact World.evolves_writeTaskState w
  | recordAttempt => exact World.evolves_of_same rfl rfl rfl
  | recordTool name => exact World.evolves_of_same rfl rfl rfl

theorem run_evolves (ctx : ToolContext A) (w : World) (steps : List (Step A)) :
    World.Evolves w (ctx.turn.run w steps) :=
  Machine.run_related (P := fun _ => True) World.Evolves.refl World.Evolves.trans
    (fun _ _ _ => trivial) (fun w step _ => turn_evolves ctx w step) steps trivial

/-- The call names a tool registered with `side_effect=True`. -/
def SideEffect (ctx : ToolContext A) (call : Call A) : Prop :=
  (ctx.tools.lookup (strip call.name)).map Tool.sideEffect = some true

instance (ctx : ToolContext A) (call : Call A) : Decidable (ctx.SideEffect call) :=
  inferInstanceAs (Decidable (_ = _))

/-- The ledger holds `operationKey`, claimed for this tool and these arguments. -/
def Recorded (ledger : Ledger) (operationKey toolName argsDigest : String) : Prop :=
  ∃ entry, ledger.lookup operationKey = some entry ∧ entry.toolName = toolName ∧
    entry.argsDigest = argsDigest

theorem Recorded.extends {a b : Ledger} {toolName argsDigest : String}
    (h : Recorded a operationKey toolName argsDigest) (hext : Ledger.Extends a b) :
    Recorded b operationKey toolName argsDigest := by
  obtain ⟨entry, hentry, hname, hdigest⟩ := h
  obtain ⟨entry', hentry', hid⟩ := hext operationKey entry hentry
  exact ⟨entry', hentry', hid.1.symm.trans hname, hid.2.symm.trans hdigest⟩

/-- A claim that answered `claimed=True` left its entry in the ledger. -/
theorem perform_recorded (hsync : w.InSync) (hstrip : strip operationKey = operationKey)
    {k : RunStore.Claim}
    (hk : (ctx.perform w env name args operationKey tool calls formatResult).2.ledgerClaim = some k)
    (hclaimed : k.claimed = true) :
    Recorded (ctx.perform w env name args operationKey tool calls formatResult).1.ledger
      operationKey name (ctx.digest args) := by
  rcases perform_cases ctx w env name args operationKey tool calls formatResult with
    ⟨exn, -, heq⟩ | ⟨code, message, details, ledgerClaim, w₁, hclaim, heq⟩ |
    ⟨c, ledgerClaim, w₁, -, hclaim, heq⟩
  · rw [heq] at hk
    cases hk
  · rw [heq] at hk
    have hk : ledgerClaim = some k := hk
    rcases claim_cases hclaim with
      ⟨-, hc, -⟩ | ⟨-, -, k', store, taskState, -, -, hk', ⟨-, hc⟩ | ⟨hnot, -⟩⟩
    · cases hc
    · cases hc
    · rw [hk] at hk'
      cases hk'
      rw [hclaimed] at hnot
      cases hnot
  · rw [heq, runClaimed_ledgerClaim] at hk
    subst hk
    rw [heq]
    have hsync₁ := (claim_evolves hclaim hsync).1
    refine Recorded.extends ?_ (runClaimed_evolves hsync₁).2
    rcases claim_cases hclaim with ⟨-, -, hk, -⟩ | ⟨-, -, k', store, taskState, hclaim', rfl, hk, -⟩
    · cases hk
    · cases hk
      rcases RunStore.claimSideEffectOperation_cases hclaim' with
        ⟨previous, -, hnot, -⟩ | ⟨-, -, ops, hops, rfl, rfl, -⟩
      · rw [hclaimed] at hnot
        cases hnot
      · refine ⟨RunStore.newEntry operationKey name (ctx.digest args) env.timestamp, ?_, rfl, rfl⟩
        rw [World.ledger_of_insert, hops, hstrip]
        exact AList.lookup_insert _

/-- The code of a refused claim, read off the entry it ran into. -/
theorem refusal_code {k : RunStore.Claim} {previous : Operation} {toolName argsDigest : String}
    (hconflict : k.conflict = !(previous.toolName == toolName && previous.argsDigest == argsDigest))
    (hprior : k.priorState = some previous.state) :
    ((refusal k).1 = .idempotencyKeyConflict ↔
      previous.toolName ≠ toolName ∨ previous.argsDigest ≠ argsDigest) ∧
    ((refusal k).1 = .sideEffectReplayBlocked ↔
      (previous.toolName = toolName ∧ previous.argsDigest = argsDigest) ∧
        previous.state = .completed) ∧
    ((refusal k).1 = .outcomeUncertain ↔
      (previous.toolName = toolName ∧ previous.argsDigest = argsDigest) ∧
        previous.state ≠ .completed) := by
  unfold refusal
  rw [hconflict, hprior]
  by_cases hname : previous.toolName = toolName
  · by_cases hdigest : previous.argsDigest = argsDigest
    · by_cases hstate : previous.state = .completed
      · simp [hname, hdigest, hstate]
      · simp [hname, hdigest, hstate]
    · simp [hname, hdigest]
  · simp [hname]

/-- A known key keeps every call with a side-effect tool away from `run`. -/
theorem perform_of_known (ctx : ToolContext A) (w : World) (env : Answers A) (name : String)
    (args : A) {operationKey : String} {tool : Tool} (calls : List A)
    (formatResult : List String → String) {previous : Operation} (hside : tool.sideEffect = true)
    (hkey : operationKey ≠ "") (hstrip : strip operationKey = operationKey)
    (hknown : w.ledger.lookup operationKey = some previous) :
    (ctx.perform w env name args operationKey tool calls formatResult).2.entered = false ∧
    ∀ k, (ctx.perform w env name args operationKey tool calls formatResult).2.ledgerClaim =
        some k →
      k.conflict = !(previous.toolName == name && previous.argsDigest == ctx.digest args) ∧
      k.priorState = some previous.state ∧
      ((ctx.perform w env name args operationKey tool calls formatResult).2.metadata.map
        Metadata.toolErrorCode) = some (refusal k).1 := by
  -- whatever the ledger answers here, it answers with the entry it already has
  have hrefused : ∀ {k store taskState}, w.store.claimSideEffectOperation w.taskState operationKey
      name (ctx.digest args) env.timestamp = .ok (k, store, taskState) → k.claimed = false ∧
      k.conflict = !(previous.toolName == name && previous.argsDigest == ctx.digest args) ∧
      k.priorState = some previous.state := by
    intro k store taskState hk
    rcases RunStore.claimSideEffectOperation_cases hk with
      ⟨previous', hprev, hnot, hconflict, hprior, -⟩ | ⟨hnone, -⟩
    · rw [hstrip] at hprev
      have hsame : previous' = previous := Option.some.inj (hprev.symm.trans hknown)
      subst hsame
      exact ⟨hnot, hconflict, hprior⟩
    · rw [hstrip] at hnone
      exact absurd (hnone.symm.trans hknown) (by simp)
  rcases perform_cases ctx w env name args operationKey tool calls formatResult with
    ⟨exn, -, heq⟩ | ⟨code, message, details, ledgerClaim, w₁, hclaim, heq⟩ |
    ⟨c, ledgerClaim, w₁, hnot, hclaim, heq⟩
  · rw [heq]
    exact ⟨rfl, fun k hk => by cases hk⟩
  · rcases claim_cases hclaim with
      ⟨hfree, -⟩ | ⟨-, -, k, store, taskState, hk, -, rfl, ⟨-, hc⟩ | ⟨-, _, hc⟩⟩
    · exact absurd ⟨hside, hkey⟩ hfree
    · cases hc
    · cases hc
      rw [heq]
      refine ⟨rfl, ?_⟩
      intro k' hk'
      cases hk'
      exact ⟨(hrefused hk).2.1, (hrefused hk).2.2, rfl⟩
  · rcases claim_cases hclaim with
      ⟨hfree, -⟩ | ⟨-, -, k, store, taskState, hk, -, -, ⟨hclaimed, -⟩ | ⟨-, _, hc⟩⟩
    · exact absurd ⟨hside, hkey⟩ hfree
    · rw [(hrefused hk).1] at hclaimed
      cases hclaimed
    · exact absurd hc (hnot _ _ _)

/-- A side-effect tool that ran under a key had claimed it. -/
theorem perform_entered (hside : tool.sideEffect = true) (hkey : operationKey ≠ "")
    (h : (ctx.perform w env name args operationKey tool calls formatResult).2.entered = true) :
    ∃ k, (ctx.perform w env name args operationKey tool calls formatResult).2.ledgerClaim =
      some k ∧ k.claimed = true := by
  rcases perform_cases ctx w env name args operationKey tool calls formatResult with
    ⟨exn, -, heq⟩ | ⟨code, message, details, ledgerClaim, w₁, -, heq⟩ |
    ⟨c, ledgerClaim, w₁, hnot, hclaim, heq⟩
  · rw [heq] at h
    cases h
  · rw [heq] at h
    cases h
  · rw [heq, runClaimed_ledgerClaim]
    rcases claim_cases hclaim with
      ⟨hfree, -⟩ | ⟨-, -, k, store, taskState, -, -, rfl, ⟨hclaimed, -⟩ | ⟨-, _, hc⟩⟩
    · exact absurd ⟨hside, hkey⟩ hfree
    · exact ⟨k, rfl, hclaimed⟩
    · exact absurd hc (hnot _ _ _)

/-- A call that claimed or ran something went through every gate. -/
theorem execute_eq_perform {call : Call A}
    (h : (∃ k, (ctx.execute w call env).2.ledgerClaim = some k) ∨
      (ctx.execute w call env).2.entered = true) :
    ∃ tool calls formatResult, ctx.tools.lookup (strip call.name) = some tool ∧
      ctx.execute w call env =
        ctx.perform (afterAllow w env (strip call.name) tool) env (strip call.name) call.args
          (strip call.operationKey) tool calls formatResult := by
  have hstopped : ¬ Report.Stopped (ctx.execute w call env).2 := by
    intro hstop
    obtain ⟨hclaim, hentered⟩ := hstop
    rcases h with ⟨k, hk⟩ | hrun
    · rw [hk] at hclaim
      cases hclaim
    · rw [hrun] at hentered
      cases hentered
  rcases execute_cases ctx w call env with
    ⟨-, -, hst⟩ | ⟨tool, calls, formatResult, htool, -, ⟨-, -, -, hst⟩ | ⟨-, heq⟩⟩
  · exact absurd hst hstopped
  · exact absurd hst hstopped
  · exact ⟨tool, calls, formatResult, htool, heq⟩

theorem sideEffect_iff {call : Call A} (htool : ctx.tools.lookup (strip call.name) = some tool) :
    ctx.SideEffect call ↔ tool.sideEffect = true := by
  simp [SideEffect, htool]

theorem execute_entered {call : Call A} (hside : ctx.SideEffect call)
    (hkey : strip call.operationKey ≠ "") (h : (ctx.execute w call env).2.entered = true) :
    ∃ k, (ctx.execute w call env).2.ledgerClaim = some k ∧ k.claimed = true := by
  obtain ⟨tool, calls, formatResult, htool, heq⟩ := execute_eq_perform (Or.inr h)
  rw [heq] at h ⊢
  exact perform_entered ((sideEffect_iff htool).mp hside) hkey h

theorem execute_recorded {call : Call A} (hsync : w.InSync) {k : RunStore.Claim}
    (hk : (ctx.execute w call env).2.ledgerClaim = some k) (hclaimed : k.claimed = true) :
    Recorded (ctx.execute w call env).1.ledger (strip call.operationKey) (strip call.name)
      (ctx.digest call.args) := by
  obtain ⟨tool, calls, formatResult, -, heq⟩ := execute_eq_perform (Or.inl ⟨k, hk⟩)
  rw [heq] at hk ⊢
  exact perform_recorded (afterAllow_evolves hsync).1 (strip_strip _) hk hclaimed

theorem perform_ledgerClaim {k : RunStore.Claim}
    (hk : (ctx.perform w env name args operationKey tool calls formatResult).2.ledgerClaim =
      some k) : tool.sideEffect = true ∧ operationKey ≠ "" := by
  rcases perform_cases ctx w env name args operationKey tool calls formatResult with
    ⟨exn, -, heq⟩ | ⟨code, message, details, ledgerClaim, w₁, hclaim, heq⟩ |
    ⟨c, ledgerClaim, w₁, -, hclaim, heq⟩
  · rw [heq] at hk
    cases hk
  · rcases claim_cases hclaim with ⟨-, hc, -⟩ | ⟨hside, -⟩
    · cases hc
    · exact hside
  · rw [heq, runClaimed_ledgerClaim] at hk
    rcases claim_cases hclaim with ⟨-, -, hc, -⟩ | ⟨hside, -⟩
    · rw [hk] at hc
      cases hc
    · exact hside

/-- Once a key is in the ledger, no call with a side-effect tool runs under it. -/
theorem execute_of_known {call : Call A} {previous : Operation}
    (hprev : w.ledger.lookup (strip call.operationKey) = some previous)
    (hkey : strip call.operationKey ≠ "") (hside : ctx.SideEffect call) :
    (ctx.execute w call env).2.entered = false ∧
    ∀ k, (ctx.execute w call env).2.ledgerClaim = some k →
      k.conflict =
        !(previous.toolName == strip call.name && previous.argsDigest == ctx.digest call.args) ∧
      k.priorState = some previous.state ∧
      ((ctx.execute w call env).2.metadata.map Metadata.toolErrorCode) = some (refusal k).1 := by
  refine ⟨?_, ?_⟩
  · cases hentered : (ctx.execute w call env).2.entered with
    | false => rfl
    | true =>
        obtain ⟨tool, calls, formatResult, htool, heq⟩ := execute_eq_perform (Or.inr hentered)
        have hknown := perform_of_known ctx (afterAllow w env (strip call.name) tool) env
          (strip call.name) call.args calls formatResult ((sideEffect_iff htool).mp hside) hkey
          (strip_strip _) hprev
        rw [heq, hknown.1] at hentered
        cases hentered
  · intro k hk
    obtain ⟨tool, calls, formatResult, htool, heq⟩ := execute_eq_perform (Or.inl ⟨k, hk⟩)
    rw [heq] at hk ⊢
    exact (perform_of_known ctx (afterAllow w env (strip call.name) tool) env (strip call.name)
      call.args calls formatResult ((sideEffect_iff htool).mp hside) hkey (strip_strip _)
      hprev).2 k hk

theorem sideEffect_of_ledgerClaim {call : Call A} {k : RunStore.Claim}
    (hk : (ctx.execute w call env).2.ledgerClaim = some k) : ctx.SideEffect call := by
  obtain ⟨tool, calls, formatResult, htool, heq⟩ := execute_eq_perform (Or.inl ⟨k, hk⟩)
  rw [heq] at hk
  exact (sideEffect_iff htool).mpr (perform_ledgerClaim hk).1

/-- The first claim of an operation key is the only one: whatever happens in
between, a later call with that key does not run its side-effect tool, and the
code it is rejected with tells how it relates to the recorded operation. -/
theorem side_effect_at_most_once (ctx : ToolContext A) (breaker : ToolCircuitBreaker)
    (store : RunStore) (taskState : TaskState) (before between : List (Step A))
    (first later : Call A) (envFirst envLater : Answers A)
    (hkey : strip first.operationKey ≠ "")
    (hsame : strip later.operationKey = strip first.operationKey) :
    let w := ctx.turn.run (World.startRun breaker store taskState) before
    let one := ctx.execute w first envFirst
    let w' := ctx.turn.run one.1 between
    let two := ctx.execute w' later envLater
    (ctx.SideEffect first → ctx.SideEffect later → one.2.entered = true →
      two.2.entered = false) ∧
    ∀ k, one.2.ledgerClaim = some k → k.claimed = true →
      (ctx.SideEffect later → two.2.entered = false) ∧
      ∀ k', two.2.ledgerClaim = some k' →
        two.2.entered = false ∧
        ∃ metadata recorded, two.2.metadata = some metadata ∧
          w'.ledger.lookup (strip later.operationKey) = some recorded ∧
          (metadata.toolErrorCode = .idempotencyKeyConflict ↔
            strip first.name ≠ strip later.name ∨
              ctx.digest first.args ≠ ctx.digest later.args) ∧
          (metadata.toolErrorCode = .sideEffectReplayBlocked ↔
            (strip first.name = strip later.name ∧
              ctx.digest first.args = ctx.digest later.args) ∧ recorded.state = .completed) ∧
          (metadata.toolErrorCode = .outcomeUncertain ↔
            (strip first.name = strip later.name ∧
              ctx.digest first.args = ctx.digest later.args) ∧ recorded.state ≠ .completed) := by
  intro w one w' two
  have hsync : w.InSync := (run_evolves ctx _ before (World.startRun_inSync ..)).1
  have hkey' : strip later.operationKey ≠ "" := by
    rw [hsame]
    exact hkey
  -- the entry of the first claim survives until the later call
  have hrec : ∀ k, one.2.ledgerClaim = some k → k.claimed = true →
      Recorded w'.ledger (strip later.operationKey) (strip first.name)
        (ctx.digest first.args) := by
    intro k hk hclaimed
    have hone : one.1.InSync := (execute_evolves ctx w first envFirst hsync).1
    rw [hsame]
    exact Recorded.extends (execute_recorded hsync hk hclaimed)
      (run_evolves ctx one.1 between hone).2
  have hblocked : ∀ k, one.2.ledgerClaim = some k → k.claimed = true →
      ctx.SideEffect later → two.2.entered = false := by
    intro k hk hclaimed hside
    obtain ⟨recorded, hrecorded, -⟩ := hrec k hk hclaimed
    exact (execute_of_known hrecorded hkey' hside).1
  refine ⟨?_, ?_⟩
  · intro hfirst hlater hentered
    obtain ⟨k, hk, hclaimed⟩ := execute_entered hfirst hkey hentered
    exact hblocked k hk hclaimed hlater
  · intro k hk hclaimed
    refine ⟨hblocked k hk hclaimed, ?_⟩
    intro k' hk'
    have hside := sideEffect_of_ledgerClaim hk'
    obtain ⟨recorded, hrecorded, hname, hdigest⟩ := hrec k hk hclaimed
    obtain ⟨hconflict, hprior, hcode⟩ := (execute_of_known hrecorded hkey' hside).2 k' hk'
    obtain ⟨metadata, hmetadata, hcode⟩ := Option.map_eq_some_iff.mp hcode
    refine ⟨hblocked k hk hclaimed hside, metadata, recorded, hmetadata, hrecorded, ?_⟩
    rw [hcode, ← hname, ← hdigest]
    exact refusal_code hconflict hprior

/-- One side-effect tool whose only argument is the recipient. -/
def notifyContext : ToolContext String where
  tools := AList.insert "notify" { risky := true, sideEffect := true } ∅
  digest recipient :=
    if recipient = "ops" then "623d3cec5eddbe3fb71bc8124f609f59cffbcfdee408aba4074a6287e59368a3"
    else ""
  repeatLimit := 2
  approvalReadOnly := false

def notifyCall : Call String := { name := "notify", args := "ops", operationKey := " key-1 " }

def notifyAnswers : Answers String := { run := fun _ => .ok "sent" }

def notifyStart : World :=
  World.startRun {} ∅ { runId := "run-1", taskId := "task-1", userRequest := "page ops" }

theorem notify_sent_once :
    (notifyContext.execute notifyStart notifyCall notifyAnswers).2.entered = true ∧
    (notifyContext.execute (notifyContext.turn.run
      (notifyContext.execute notifyStart notifyCall notifyAnswers).1 [.writeTaskState])
      notifyCall notifyAnswers).2.entered = false := by
  have hentered :
      (notifyContext.execute notifyStart notifyCall notifyAnswers).2.entered = true := by
    decide
  refine ⟨hentered, ?_⟩
  exact (side_effect_at_most_once notifyContext {} ∅
    { runId := "run-1", taskId := "task-1", userRequest := "page ops" } [] [.writeTaskState]
    notifyCall notifyCall notifyAnswers notifyAnswers (by decide) rfl).1 (by decide) (by decide)
    hentered

end ToolContext
end Tooling
end CodeCub

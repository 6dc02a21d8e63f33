import CodeCub.Tooling.AtMostOnce

/-!
# The half-open probe

`allow` takes the probe several gates before a result is recorded.  The exits in
between that do not record one are a ledger claim that refuses or raises, a
workspace snapshot that raises before the `try` block, and an error handler that
raises in its own bookkeeping.  `GivesBack` names the calls that avoid them all,
and a run keeps its breaker idle exactly when each of its calls does.
-/

namespace CodeCub
namespace Tooling

open Python Runs

namespace ToolContext

variable {A : Type} {ctx : ToolContext A} {w w' : World} {env : Answers A} {name : String}
  {args : A} {operationKey : String} {tool : Tool} {calls : List A}
  {formatResult : List String → String}

/-- The `try` block gets as far as `record_result`; `owned` says that the call
holds a ledger key. -/
def AttemptRecords (env : Answers A) (tool : Tool) (owned : Prop) (calls : List A) : Prop :=
  (calls.mapM env.run).isOk ∧ (tool.risky = true → env.snapshotAfter.isOk) ∧
    env.fingerprint.isOk ∧ (owned → env.completeFailure = none)

/-- The error handler gets as far as `record_result`. -/
def HandlerRecords (env : Answers A) (tool : Tool) (owned : Prop) : Prop :=
  (tool.risky = true → env.handler.snapshot.isOk) ∧ env.handler.fingerprint.isOk ∧
    (owned → env.handler.completeFailure = none)

/-- The call needs the ledger. -/
def NeedsKey (call : Call A) (tool : Tool) : Prop :=
  tool.sideEffect = true ∧ strip call.operationKey ≠ ""

/-- From the probe to a recorded result: the claim is new and does not raise, the
first snapshot succeeds, and the `try` block or its handler records. -/
def CallGivesBack (ctx : ToolContext A) (w : World) (call : Call A) (env : Answers A) : Prop :=
  ∀ tool calls formatResult, ctx.tools.lookup (strip call.name) = some tool →
    tool.circuitBreaker = true →
    ctx.gate env (strip call.name) tool = .admitted calls formatResult →
    w.breaker.HalfOpen (strip call.name) env.allowClock →
    (NeedsKey call tool → env.claimFailure = none ∧
      w.ledger.lookup (strip call.operationKey) = none) ∧
    (tool.risky = true → env.snapshotBefore.isOk) ∧
    (AttemptRecords env tool (NeedsKey call tool)
        (if calls.isEmpty then [call.args] else calls) ∨
      HandlerRecords env tool (NeedsKey call tool))

def GivesBack (ctx : ToolContext A) (w : World) : Step A → Prop
  | .call call env => ctx.CallGivesBack w call env
  | _ => True

theorem complete_breaker {c : ReplayClaim} {success : Bool} {metadata metadata' : Metadata}
    {failure : Option Exn} {timestamp : Timestamp}
    (h : complete w c success metadata failure timestamp = .ok (w', metadata')) :
    w'.breaker = w.breaker := by
  rcases complete_cases h with
    ⟨-, rfl⟩ | ⟨key, digest, state, result, store, taskState, -, -, -, rfl⟩
  · rfl
  · rfl

theorem claim_breaker {sideEffect : Bool} {c : ReplayClaim}
    {ledgerClaim : Option RunStore.Claim}
    (h : ctx.claim w env name args operationKey sideEffect = .ok (c, ledgerClaim, w')) :
    w'.breaker = w.breaker := by
  rcases claim_cases h with ⟨-, -, -, rfl⟩ | ⟨-, -, k, store, taskState, -, rfl, -⟩
  · rfl
  · rfl

/-- The claim's key, if it has one, is in the ledger. -/
def Held (w : World) (c : ReplayClaim) : Prop :=
  ∀ key digest, c = .owned key digest → ∃ entry, w.ledger.lookup (strip key) = some entry

/-- The call holds a ledger key. -/
def Owned (c : ReplayClaim) : Prop := ∃ key digest, c = .owned key digest

/-- Completing a held claim fails only when the store does. -/
theorem complete_ok_iff {c : ReplayClaim} {success : Bool} {metadata : Metadata}
    {failure : Option Exn} {timestamp : Timestamp} (hheld : Held w c) :
    (∃ result, complete w c success metadata failure timestamp = .ok result) ↔
      (Owned c → failure = none) := by
  constructor
  · intro hok howned
    obtain ⟨⟨w₁, metadata'⟩, h⟩ := hok
    obtain ⟨key, digest, hc⟩ := howned
    rcases complete_cases h with ⟨hnot, -⟩ | ⟨_, _, _, _, _, _, -, hfailure, -⟩
    · exact absurd hc (hnot key digest)
    · exact hfailure
  · intro h
    cases c with
    | free => exact ⟨_, rfl⟩
    | refused code message details => exact ⟨_, rfl⟩
    | owned key digest =>
        obtain ⟨entry, hentry⟩ := hheld key digest rfl
        have hfailure : failure = none := h ⟨key, digest, rfl⟩
        subst hfailure
        obtain ⟨⟨store, taskState⟩, hup⟩ := RunStore.updateSideEffectOperation_ok hentry
        simp only [complete]
        rw [hup]
        exact ⟨_, rfl⟩

theorem complete_not_error {c : ReplayClaim} {success : Bool} {metadata : Metadata}
    {failure : Option Exn} {timestamp : Timestamp} {exn : Exn} (hheld : Held w c)
    (h : Owned c → failure = none) :
    complete w c success metadata failure timestamp ≠ .error exn := by
  intro hfail
  obtain ⟨result, hok⟩ := (complete_ok_iff hheld).mpr h
  rw [hok] at hfail
  cases hfail

theorem recordResult_idle (htool : ctx.tools.lookup name = some tool)
    (hcb : tool.circuitBreaker = true) (h : w.breaker.IdleExcept name) (success : Bool)
    (now : ℚ) : (ctx.recordResult w name success now).breaker.Idle := by
  unfold recordResult
  simp only [htool, Option.getD_some, hcb, if_true]
  cases success with
  | true => exact h.recordSuccess
  | false => exact h.recordFailure

theorem recordResult_keeps_idle (htool : ctx.tools.lookup name = some tool)
    (h : w.breaker.Idle) (success : Bool) (now : ℚ) :
    (ctx.recordResult w name success now).breaker.Idle := by
  cases hcb : tool.circuitBreaker with
  | true => exact recordResult_idle htool hcb (h.idleExcept name) success now
  | false => simpa [recordResult, htool, hcb] using h

theorem recover_idle {c : ReplayClaim} {before : Snapshot} {exn : Exn}
    (htool : ctx.tools.lookup name = some tool) (h : w.breaker.Idle) :
    (ctx.recover w env name tool c before exn).1.breaker.Idle := by
  rcases recover_cases ctx w env name tool c before exn with
    ⟨-, heq⟩ | ⟨-, _, _, -, heq⟩ | ⟨-, _, _, w₁, hok, heq⟩
  · rw [heq]
    exact h
  · rw [heq]
    exact h
  · rw [heq]
    exact recordResult_keeps_idle htool (by rw [complete_breaker hok]; exact h) _ _

/-- A `try` block records its result, or raises before it changed anything. -/
theorem attempt_records (ctx : ToolContext A) (env : Answers A) (name : String) (tool : Tool)
    {c : ReplayClaim} (calls : List A) (formatResult : List String → String) (before : Snapshot)
    (hheld : Held w c) :
    (AttemptRecords env tool (Owned c) calls ∧ ∃ w₁, w₁.breaker = w.breaker ∧
      (ctx.attempt w env name tool c calls formatResult before).1 =
        ctx.recordResult w₁ name env.validateResult.1 env.failureClock) ∨
    (¬ AttemptRecords env tool (Owned c) calls ∧
      (ctx.attempt w env name tool c calls formatResult before).1 = w ∧
      ∃ exn, (ctx.attempt w env name tool c calls formatResult before).2 = .error exn) := by
  rcases attempt_cases ctx w env name tool c calls formatResult before with
    ⟨hnot, exn, heq⟩ | ⟨-, metadata, exn, hfail, heq⟩ | ⟨⟨hrun, hsnap, hfinger⟩, _, _, w₁, hok, heq⟩
  · refine Or.inr ⟨fun h => hnot ⟨h.1, h.2.1, h.2.2.1⟩, ?_⟩
    rw [heq]
    exact ⟨rfl, exn, rfl⟩
  · refine Or.inr ⟨fun h => complete_not_error hheld h.2.2.2 hfail, ?_⟩
    rw [heq]
    exact ⟨rfl, exn, rfl⟩
  · have howned := (complete_ok_iff hheld).mp ⟨_, hok⟩
    exact Or.inl ⟨⟨hrun, hsnap, hfinger, howned⟩, w₁, complete_breaker hok, heq⟩

theorem recover_records (ctx : ToolContext A) (env : Answers A) (name : String) (tool : Tool)
    {c : ReplayClaim} (before : Snapshot) (exn : Exn) (hheld : Held w c) :
    (HandlerRecords env tool (Owned c) ∧ ∃ w₁, w₁.breaker = w.breaker ∧
      (ctx.recover w env name tool c before exn).1 =
        ctx.recordResult w₁ name false env.handler.failureClock) ∨
    (¬ HandlerRecords env tool (Owned c) ∧
      (ctx.recover w env name tool c before exn).1 = w) := by
  rcases recover_cases ctx w env name tool c before exn with
    ⟨hnot, heq⟩ | ⟨-, metadata, exn', hfail, heq⟩ | ⟨⟨hsnap, hfinger⟩, _, _, w₁, hok, heq⟩
  · exact Or.inr ⟨fun h => hnot ⟨h.1, h.2.1⟩, heq⟩
  · exact Or.inr ⟨fun h => complete_not_error hheld h.2.2 hfail, heq⟩
  · have howned := (complete_ok_iff hheld).mp ⟨_, hok⟩
    exact Or.inl ⟨⟨hsnap, hfinger, howned⟩, w₁, complete_breaker hok, heq⟩

/-- A tool with its own circuit gives the probe back from the `try` block on
exactly when the block or its handler records a result. -/
theorem runClaimed_idle_iff {c : ReplayClaim} {ledgerClaim : Option RunStore.Claim}
    (htool : ctx.tools.lookup name = some tool) (hcb : tool.circuitBreaker = true)
    (hexcept : w.breaker.IdleExcept name) (hheld : Held w c)
    (htaken : (w.breaker.state name).halfOpenInFlight = true) :
    (ctx.runClaimed w env name args tool c ledgerClaim calls formatResult).1.breaker.Idle ↔
      (tool.risky = true → env.snapshotBefore.isOk) ∧
      (AttemptRecords env tool (Owned c) (if calls.isEmpty then [args] else calls) ∨
        HandlerRecords env tool (Owned c)) := by
  have hnotIdle : ¬ w.breaker.Idle := fun h => by simpa [htaken] using h name
  unfold runClaimed
  split
  · next exn hsnap =>
      refine ⟨fun h => absurd h hnotIdle, fun h => ?_⟩
      exact absurd (snapshot_isOk_iff.mpr h.1) (not_isOk_of_error hsnap)
  · next before hsnap =>
      rw [and_iff_right (snapshot_isOk_iff.mp (isOk_of_ok hsnap))]
      rcases attempt_records ctx env name tool (if calls.isEmpty then [args] else calls)
        formatResult before hheld with
        ⟨hrec, w₁, hw₁, hworld⟩ | ⟨hnot, hworld, exn, herror⟩
      · -- the probe is back after the `try` block, and the handler cannot take it again
        refine ⟨fun _ => Or.inl hrec, fun _ => ?_⟩
        have hidle : (ctx.attempt w env name tool c (if calls.isEmpty then [args] else calls)
            formatResult before).1.breaker.Idle := by
          rw [hworld]
          exact recordResult_idle htool hcb (by rw [hw₁]; exact hexcept) _ _
        split
        · next w₂ result metadata hattempt =>
            rw [hattempt] at hidle
            exact hidle
        · next w₂ exn hattempt =>
            rw [hattempt] at hidle
            exact recover_idle htool hidle
      · have hattempt : ctx.attempt w env name tool c (if calls.isEmpty then [args] else calls)
            formatResult before = (w, .error exn) := Prod.ext hworld herror
        rw [hattempt, or_iff_right hnot]
        rcases recover_records ctx env name tool before exn hheld with
          ⟨hrec, w₁, hw₁, heq⟩ | ⟨hnrec, heq⟩
        · refine ⟨fun _ => hrec, fun _ => ?_⟩
          show (ctx.recover w env name tool c before exn).1.breaker.Idle
          rw [heq]
          exact recordResult_idle htool hcb (by rw [hw₁]; exact hexcept) _ _
        · refine ⟨fun h => absurd ?_ hnotIdle, fun h => absurd h hnrec⟩
          change (ctx.recover w env name tool c before exn).1.breaker.Idle at h
          rw [heq] at h
          exact h

/-- A call whose circuit was closed leaves the breaker idle, whatever happens. -/
theorem runClaimed_idle {c : ReplayClaim} {ledgerClaim : Option RunStore.Claim}
    (htool : ctx.tools.lookup name = some tool) (hidle : w.breaker.Idle) :
    (ctx.runClaimed w env name args tool c ledgerClaim calls
      formatResult).1.breaker.Idle :=
  runClaimed_related (R := fun a b => a.breaker.Idle → b.breaker.Idle) (fun _ h => h)
    (fun hab hbc h => hbc (hab h))
    (fun hcomplete h => by rw [complete_breaker hcomplete]; exact h)
    (fun _ success now h => recordResult_keeps_idle htool h success now) hidle

/-- A claim raises only when the store does. -/
theorem claim_error {sideEffect : Bool} {exn : Exn} (hstrip : strip operationKey = operationKey)
    (h : ctx.claim w env name args operationKey sideEffect = .error exn) :
    (sideEffect = true ∧ operationKey ≠ "") ∧ env.claimFailure ≠ none := by
  unfold claim at h
  split at h
  · cases h
  · next hfree =>
      have hneeds : sideEffect = true ∧ operationKey ≠ "" := by
        simpa using hfree
      split at h
      · next exn' hfail => exact ⟨hneeds, by simp [hfail]⟩
      · obtain ⟨result, hok⟩ := RunStore.claimSideEffectOperation_ok w.store w.taskState name
          (ctx.digest args) env.timestamp (by rw [hstrip]; exact hneeds.2)
        simp only [hok] at h
        split at h
        · cases h
        · cases h

/-- An accepted claim found its key free, and holds it from then on. -/
theorem claim_accepted {sideEffect : Bool} {c : ReplayClaim}
    {ledgerClaim : Option RunStore.Claim} (hstrip : strip operationKey = operationKey)
    (hnot : ∀ code message details, c ≠ .refused code message details)
    (h : ctx.claim w env name args operationKey sideEffect = .ok (c, ledgerClaim, w')) :
    ((sideEffect = true ∧ operationKey ≠ "") →
      env.claimFailure = none ∧ w.ledger.lookup operationKey = none) ∧
    (Owned c ↔ sideEffect = true ∧ operationKey ≠ "") ∧ Held w' c := by
  rcases claim_cases h with
    ⟨hfree, rfl, -, rfl⟩ |
    ⟨hneeds, hfail, k, store, taskState, hk, rfl, -, ⟨hclaimed, rfl⟩ | ⟨-, details, hc⟩⟩
  · refine ⟨fun hneeds => absurd hneeds hfree, ?_, fun key digest hc => by cases hc⟩
    simp [Owned, hfree]
  · rcases RunStore.claimSideEffectOperation_cases hk with
      ⟨previous, -, hnot', -⟩ | ⟨hnone, -, ops, hops, rfl, rfl, -⟩
    · rw [hclaimed] at hnot'
      cases hnot'
    · rw [hstrip] at hnone
      refine ⟨fun _ => ⟨hfail, hnone⟩, ⟨fun _ => hneeds, fun _ => ⟨_, _, rfl⟩⟩, ?_⟩
      intro key digest hsame
      cases hsame
      refine ⟨RunStore.newEntry (strip operationKey) name (ctx.digest args) env.timestamp, ?_⟩
      rw [World.ledger_of_insert, hops]
      exact AList.lookup_insert _
  · exact absurd hc (hnot _ _ _)

theorem claim_refused {sideEffect : Bool} {code : ErrorCode} {message : String}
    {details : SideEffectMetadata} {ledgerClaim : Option RunStore.Claim}
    (hstrip : strip operationKey = operationKey)
    (h : ctx.claim w env name args operationKey sideEffect =
      .ok (.refused code message details, ledgerClaim, w')) :
    (sideEffect = true ∧ operationKey ≠ "") ∧ w.ledger.lookup operationKey ≠ none := by
  rcases claim_cases h with
    ⟨-, hc, -⟩ | ⟨hneeds, -, k, store, taskState, hk, -, -, ⟨-, hc⟩ | ⟨hrefused, -⟩⟩
  · cases hc
  · cases hc
  · refine ⟨hneeds, ?_⟩
    rcases RunStore.claimSideEffectOperation_cases hk with ⟨previous, hprev, -⟩ | ⟨-, hclaimed, -⟩
    · rw [hstrip] at hprev
      intro hnone
      exact absurd (hnone.symm.trans hprev) (by simp)
    · rw [hrefused] at hclaimed
      cases hclaimed

theorem perform_idle_iff (htool : ctx.tools.lookup name = some tool)
    (hcb : tool.circuitBreaker = true) (hstrip : strip operationKey = operationKey)
    (hexcept : w.breaker.IdleExcept name)
    (htaken : (w.breaker.state name).halfOpenInFlight = true) :
    (ctx.perform w env name args operationKey tool calls formatResult).1.breaker.Idle ↔
      ((tool.sideEffect = true ∧ operationKey ≠ "") →
        env.claimFailure = none ∧ w.ledger.lookup operationKey = none) ∧
      (tool.risky = true → env.snapshotBefore.isOk) ∧
      (AttemptRecords env tool (tool.sideEffect = true ∧ operationKey ≠ "")
          (if calls.isEmpty then [args] else calls) ∨
        HandlerRecords env tool (tool.sideEffect = true ∧ operationKey ≠ "")) := by
  have hnotIdle : ¬ w.breaker.Idle := fun h => by simpa [htaken] using h name
  rcases perform_cases ctx w env name args operationKey tool calls formatResult with
    ⟨exn, hclaim, heq⟩ | ⟨code, message, details, ledgerClaim, w₁, hclaim, heq⟩ |
    ⟨c, ledgerClaim, w₁, hnot, hclaim, heq⟩
  · obtain ⟨hneeds, hfail⟩ := claim_error hstrip hclaim
    rw [heq]
    exact ⟨fun h => absurd h hnotIdle, fun h => absurd (h.1 hneeds).1 hfail⟩
  · obtain ⟨hneeds, hknown⟩ := claim_refused hstrip hclaim
    rw [heq]
    refine ⟨fun h => absurd ?_ hnotIdle, fun h => absurd (h.1 hneeds).2 hknown⟩
    rw [← claim_breaker hclaim]
    exact h
  · obtain ⟨hfree, howned, hheld⟩ := claim_accepted hstrip hnot hclaim
    rw [heq, and_iff_right hfree]
    have hbreaker := claim_breaker hclaim
    have howned : Owned c = (tool.sideEffect = true ∧ operationKey ≠ "") := propext howned
    rw [← howned]
    exact runClaimed_idle_iff htool hcb (by rw [hbreaker]; exact hexcept) hheld
      (by rw [hbreaker]; exact htaken)

theorem perform_keeps_idle (htool : ctx.tools.lookup name = some tool) (hidle : w.breaker.Idle) :
    (ctx.perform w env name args operationKey tool calls formatResult).1.breaker.Idle := by
  rcases perform_cases ctx w env name args operationKey tool calls formatResult with
    ⟨exn, -, heq⟩ | ⟨code, message, details, ledgerClaim, w₁, hclaim, heq⟩ |
    ⟨c, ledgerClaim, w₁, hnot, hclaim, heq⟩
  · rw [heq]
    exact hidle
  · rw [heq]
    show w₁.breaker.Idle
    rw [claim_breaker hclaim]
    exact hidle
  · rw [heq]
    exact runClaimed_idle htool (by rw [claim_breaker hclaim]; exact hidle)

theorem afterAllow_idle (hidle : w.breaker.Idle)
    (h : tool.circuitBreaker = true → ¬ w.breaker.HalfOpen name env.allowClock) :
    (afterAllow w env name tool).breaker.Idle := by
  unfold afterAllow
  cases hcb : tool.circuitBreaker with
  | false => simpa using hidle
  | true =>
      simp only [if_true]
      refine (ToolCircuitBreaker.allow_idleExcept hidle).idle ?_
      rw [← Bool.not_eq_true, ToolCircuitBreaker.allow_halfOpenInFlight hidle]
      exact h hcb

/-- One call returns the probe it took exactly when `CallGivesBack` holds. -/
theorem execute_idle_iff (ctx : ToolContext A) (w : World) (call : Call A) (env : Answers A)
    (hidle : w.breaker.Idle) :
    (ctx.execute w call env).1.breaker.Idle ↔ ctx.CallGivesBack w call env := by
  rcases execute_cases ctx w call env with
    ⟨hnot, heq, -⟩ | ⟨tool, calls, formatResult, htool, hgate, hcases⟩
  · rw [heq]
    refine ⟨fun _ tool calls formatResult htool _ hgate => ?_, fun _ => hidle⟩
    exact absurd hgate (hnot tool htool calls formatResult)
  · -- the tool and its admission are determined, so `CallGivesBack` is about them
    have hback : ctx.CallGivesBack w call env ↔
        (tool.circuitBreaker = true → w.breaker.HalfOpen (strip call.name) env.allowClock →
          (NeedsKey call tool → env.claimFailure = none ∧
            w.ledger.lookup (strip call.operationKey) = none) ∧
          (tool.risky = true → env.snapshotBefore.isOk) ∧
          (AttemptRecords env tool (NeedsKey call tool)
              (if calls.isEmpty then [call.args] else calls) ∨
            HandlerRecords env tool (NeedsKey call tool))) := by
      constructor
      · intro h hcb hhalf
        exact h tool calls formatResult htool hcb hgate hhalf
      · intro h tool' calls' formatResult' htool' hcb hgate' hhalf
        have hsame : tool' = tool := Option.some.inj (htool'.symm.trans htool)
        subst hsame
        rw [hgate] at hgate'
        cases hgate'
        exact h hcb hhalf
    rw [hback]
    rcases hcases with ⟨hcb, hrefused, heq, -⟩ | ⟨hallowed, heq⟩
    · have hclosed : ¬ w.breaker.HalfOpen (strip call.name) env.allowClock := by
        intro hhalf
        rw [ToolCircuitBreaker.allow_of_halfOpen hidle hhalf] at hrefused
        cases hrefused
      rw [heq]
      exact ⟨fun _ _ hhalf => absurd hhalf hclosed, fun _ => afterAllow_idle hidle fun _ => hclosed⟩
    · rw [heq]
      by_cases htaken : tool.circuitBreaker = true ∧
          w.breaker.HalfOpen (strip call.name) env.allowClock
      · obtain ⟨hcb, hhalf⟩ := htaken
        have hbreaker : (afterAllow w env (strip call.name) tool).breaker =
            (w.breaker.allow (strip call.name) env.allowClock).2 := by
          simp [afterAllow, hcb]
        rw [perform_idle_iff htool hcb (strip_strip _)
          (by rw [hbreaker]; exact ToolCircuitBreaker.allow_idleExcept hidle)
          (by rw [hbreaker]; exact (ToolCircuitBreaker.allow_halfOpenInFlight hidle).mpr hhalf)]
        exact ⟨fun h _ _ => h, fun h => h hcb hhalf⟩
      · refine ⟨fun _ hcb hhalf => absurd ⟨hcb, hhalf⟩ htaken, fun _ => ?_⟩
        exact perform_keeps_idle htool
          (afterAllow_idle hidle fun hcb hhalf => htaken ⟨hcb, hhalf⟩)

theorem turn_idle_iff (ctx : ToolContext A) (w : World) (step : Step A)
    (hidle : w.breaker.Idle) :
    (ctx.turn.next w step).breaker.Idle ↔ ctx.GivesBack w step := by
  cases step with
  | call call env => exact execute_idle_iff ctx w call env hidle
  | writeTaskState => exact ⟨fun _ => trivial, fun _ => hidle⟩
  | recordAttempt => exact ⟨fun _ => trivial, fun _ => hidle⟩
  | recordTool name => exact ⟨fun _ => trivial, fun _ => hidle⟩

/-- No probe is out, and every tool whose reset time has elapsed is admitted. -/
def ProbeHome (breaker : ToolCircuitBreaker) : Prop :=
  breaker.Idle ∧
    ∀ name now, breaker.HalfOpen name now → (breaker.allow name now).1 = true

theorem probeHome_iff {breaker : ToolCircuitBreaker} : ProbeHome breaker ↔ breaker.Idle :=
  ⟨And.left, fun h => ⟨h, fun _ _ hhalf => ToolCircuitBreaker.allow_of_halfOpen h hhalf⟩⟩

/-- From a fresh breaker the probe is home after every step of a run exactly when
every call that took it went on to record a result. -/
theorem probe_home_iff_givesBack (ctx : ToolContext A) (failureThreshold : Nat)
    (resetSeconds : ℚ) (store : RunStore) (taskState : TaskState) (steps : List (Step A)) :
    (∀ before, before <+: steps →
      ProbeHome (ctx.turn.run
        (World.startRun { failureThreshold, resetSeconds } store taskState) before).breaker) ↔
    ctx.turn.Along ctx.GivesBack
      (World.startRun { failureThreshold, resetSeconds } store taskState) steps := by
  have hfresh : (World.startRun { failureThreshold, resetSeconds } store taskState).breaker.Idle :=
    fun _ => rfl
  simp only [probeHome_iff]
  exact Machine.forall_prefix_iff_along (P := fun w : World => w.breaker.Idle)
    (fun w step hidle => turn_idle_iff ctx w step hidle) hfresh

/-- A call of the notify tool under its own key that raises at time zero. -/
def notifyFails (key : String) : Step String :=
  .call { notifyCall with operationKey := key } { run := fun _ => .error "connection refused" }

/-- Three failures open the circuit; the probe of the fourth call, a minute and
more later, is lost in the refusal of its key. -/
def leakingSteps : List (Step String) :=
  [notifyFails "a", notifyFails "b", notifyFails "c",
    .call { notifyCall with operationKey := "a" } { run := fun _ => .ok "sent", allowClock := 100 }]

theorem leakingSteps_lose_probe :
    ¬ ProbeHome (notifyContext.turn.run notifyStart leakingSteps).breaker := by
  intro h
  have hstate : ((notifyContext.turn.run notifyStart leakingSteps).breaker.state
      "notify").halfOpenInFlight = true := by
    decide +kernel
  rw [h.1 "notify"] at hstate
  cases hstate

end ToolContext
end Tooling
end CodeCub

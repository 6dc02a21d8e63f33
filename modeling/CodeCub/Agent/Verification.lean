import CodeCub.Agent.Planning
import CodeCub.Native.ToolRuns

/-!
# Verification after a change

The native loop with its tools in place: an iteration's tool goes through the governed
executor, and its metadata moves the planning counters.  A turn that must change the
workspace may answer only when the changes it counted are verified, and a `run_shell`
counts as a verification unless it was rejected.  A command that the circuit breaker or
the side-effect ledger refuses is not rejected but blocked, and counts as well.
-/

namespace CodeCub
namespace Agent

open Python Tooling Native

/-! ## Events -/

/-- A tool event of the loop, with whether the tool's `run` was entered. -/
structure ToolEvent where
  name : String
  metadata : Metadata
  executed : Bool

namespace ToolEvent

def isChange (event : ToolEvent) : Bool :=
  isActionTool event.name && event.metadata.workspaceChanged

def isVerification (event : ToolEvent) : Bool := event.name == "run_shell" && event.executed

end ToolEvent

/-- After the last changed `patch_file` or `write_file`, if there is one, a `run_shell`
was executed. -/
def VerifiedAfterLastChange (events : List ToolEvent) : Prop :=
  ∀ before change after, events = before ++ change :: after → change.isChange = true →
    (∀ event ∈ after, event.isChange = false) → ∃ event ∈ after, event.isVerification = true

theorem verified_nil : VerifiedAfterLastChange [] := by
  intro before change after h
  exact absurd h.symm (by simp)

theorem not_verified_change {events : List ToolEvent} {event : ToolEvent}
    (hchange : event.isChange = true) : ¬ VerifiedAfterLastChange (events ++ [event]) := by
  intro h
  obtain ⟨event', hmem, -⟩ := h events event [] rfl hchange (by simp)
  cases hmem

/-- Where an appended event that is no change sits in a split at a change. -/
theorem split_snoc {events before after : List ToolEvent} {event change : ToolEvent}
    (hevent : event.isChange = false) (hchange : change.isChange = true)
    (h : events ++ [event] = before ++ change :: after) :
    ∃ rest, after = rest ++ [event] ∧ events = before ++ change :: rest := by
  rcases List.eq_nil_or_concat after with rfl | ⟨rest, last, rfl⟩
  · obtain ⟨-, hlast⟩ := List.append_inj' h rfl
    rw [List.singleton_inj.mp hlast, hchange] at hevent
    cases hevent
  · have hconcat : events ++ [event] = (before ++ change :: rest) ++ [last] := by
      rw [h]
      simp
    obtain ⟨hevents, hlast⟩ := List.append_inj' hconcat rfl
    refine ⟨rest, ?_, hevents⟩
    rw [List.singleton_inj.mp hlast, List.concat_eq_append]

theorem verified_verification {events : List ToolEvent} {event : ToolEvent}
    (hevent : event.isChange = false) (hverification : event.isVerification = true) :
    VerifiedAfterLastChange (events ++ [event]) := by
  intro before change after h hchange _
  obtain ⟨rest, rfl, -⟩ := split_snoc hevent hchange h
  exact ⟨event, by simp, hverification⟩

theorem verified_other {events : List ToolEvent} {event : ToolEvent}
    (hevent : event.isChange = false) (hverification : event.isVerification = false) :
    VerifiedAfterLastChange (events ++ [event]) ↔ VerifiedAfterLastChange events := by
  constructor
  · intro h before change after hsplit hchange hafter
    obtain ⟨found, hmem, hfound⟩ := h before change (after ++ [event]) (by rw [hsplit]; simp)
      hchange (by
        intro event' hmem
        rcases List.mem_append.mp hmem with hmem | hmem
        · exact hafter event' hmem
        · rw [List.mem_singleton.mp hmem]
          exact hevent)
    rcases List.mem_append.mp hmem with hmem | hmem
    · exact ⟨found, hmem, hfound⟩
    · rw [List.mem_singleton.mp hmem, hverification] at hfound
      cases hfound
  · intro h before change after hsplit hchange hafter
    obtain ⟨rest, rfl, hevents⟩ := split_snoc hevent hchange hsplit
    obtain ⟨found, hmem, hfound⟩ := h before change rest hevents hchange
      fun event' hmem => hafter event' (List.mem_append_left _ hmem)
    exact ⟨found, List.mem_append_left _ hmem, hfound⟩

/-- Scan the events for the last change and a command after it. -/
def scanVerified (events : List ToolEvent) : Bool :=
  events.foldl (fun verified event => !event.isChange && (verified || event.isVerification)) true

theorem scanVerified_iff (events : List ToolEvent) :
    scanVerified events = true ↔ VerifiedAfterLastChange events := by
  induction events using List.reverseRecOn with
  | nil => exact iff_of_true rfl verified_nil
  | append_singleton events event ih =>
      have hscan : scanVerified (events ++ [event]) =
          (!event.isChange && (scanVerified events || event.isVerification)) := by
        simp [scanVerified]
      rw [hscan]
      cases hchange : event.isChange with
      | true => exact iff_of_false (by simp) (not_verified_change hchange)
      | false =>
          cases hverification : event.isVerification with
          | true => exact iff_of_true (by simp) (verified_verification hchange hverification)
          | false =>
              rw [verified_other hchange hverification, ← ih]
              simp

instance (events : List ToolEvent) : Decidable (VerifiedAfterLastChange events) :=
  decidable_of_iff _ (scanVerified_iff events)

/-! ## The governed loop -/

structure GovernedLoop where
  loop : LoopConfig
  tools : ToolContext ToolArgs
  unicode : Unicode

structure GovernedRun where
  run : LoopRun
  world : World
  planning : PlanningState := {}
  /-- An exception left `AgentLoop.run`. -/
  raised : Bool := false
  events : List ToolEvent := []

/-- One iteration: what the collaborators answer, the arguments of its call, and what
the executor's collaborators answer while the tool runs. -/
structure GovernedInput where
  iteration : Iteration
  args : ToolArgs := {}
  readNotice : String := ""
  answers : Answers ToolArgs

def PlanningState.view (state : PlanningState) : Native.Planning where
  actionExpected := state.actionReadiness = .actionExpected
  workspaceChangeCount := state.workspaceChangeCount
  lastVerifiedChangeCount := state.lastVerifiedChangeCount

/-- The observer prepares and finalizes reads only. -/
def readAnswers (name : String) (env : Answers ToolArgs) : Answers ToolArgs :=
  if strip name = "read_file" then env
  else { env with prepare := .ok (.proceed [] defaultFormat), finalize := .ok () }

namespace GovernedRun

def iteration (r : GovernedRun) (input : GovernedInput) : Iteration :=
  { input.iteration with planning := r.planning.view }

def live (r : GovernedRun) : Bool := !r.raised && r.run.outcome.isNone

/-- The world at the top of an iteration: the attempt is recorded and written. -/
def attempted (r : GovernedRun) : World :=
  let taskState := r.world.taskState.recordAttempt
  { r.world with taskState, store := r.world.store.writeTaskState taskState }

/-- The world that the executor finds. -/
def beforeTool (r : GovernedRun) (name : String) : World :=
  { r.attempted with taskState := r.attempted.taskState.recordTool name }

end GovernedRun

/-- A call recovered from a text carries no operation key. -/
def toolCall (tool : ToolRun) (args : ToolArgs) : Call ToolArgs where
  name := tool.name
  args := args
  operationKey := if tool.recovered then "" else tool.callId

namespace GovernedLoop

variable (g : GovernedLoop)

/-- The tool that the iteration runs. -/
def tool (r : GovernedRun) (input : GovernedInput) : Option ToolRun :=
  toolRun g.loop (r.iteration input) r.run.state

def execute (r : GovernedRun) (input : GovernedInput) (tool : ToolRun) : World × Report :=
  g.tools.execute (r.beforeTool tool.name) (toolCall tool input.args)
    (readAnswers tool.name input.answers)

def policy (r : GovernedRun) (input : GovernedInput) (tool : ToolRun) : PlanningPolicy where
  requiresWorkspaceChange := g.loop.requiresWorkspaceChange
  sourceReadCount := r.run.state.sourceReads +
    (if tool.name = "read_file" ∧ isSourcePath input.args.path then 1 else 0)
  requiresTwoSourceReads := g.loop.toolChoice == some false

/-- The loop's own part of an iteration. -/
def iterated (r : GovernedRun) (it : Iteration) : LoopRun :=
  let step := iterate g.loop r.run.state it
  { state := step.state, outcome := step.outcome }

/-- After the tool: the result joins the transcript and the event moves the planning
state, unless the run was cancelled meanwhile. -/
def observe (r : GovernedRun) (input : GovernedInput) (tool : ToolRun) (world : World)
    (result : String) (metadata : Metadata) (entered : Bool) : GovernedRun :=
  let notice := if tool.name = "read_file" then input.readNotice else ""
  let it :=
    { r.iteration input with
      toolResult := if notice = "" then result else notice ++ "\n\n" ++ result
      sourcePath := isSourcePath input.args.path }
  if it.cancelledAfterTool then { r with run := g.iterated r it, world }
  else
    match r.planning.updatePlanningState g.unicode (g.policy r input tool) tool.name input.args
      metadata (r.run.state.toolSteps + 1) with
    | none => { r with world, raised := true }
    | some (planning, _) =>
        { r with
          run := g.iterated r it
          world := { world with store := world.store.writeTaskState world.taskState }
          planning
          events := r.events ++ [{ name := tool.name, metadata, executed := entered }] }

def advance (r : GovernedRun) (input : GovernedInput) : GovernedRun :=
  match g.tool r input with
  | none => { r with run := g.iterated r (r.iteration input), world := r.attempted }
  | some tool =>
      let (world, report) := g.execute r input tool
      match report.result, report.metadata with
      | .ok result, some metadata =>
          g.observe r input tool world result metadata report.entered
      | _, _ => { r with world, raised := true }

def machine : Machine GovernedRun GovernedInput Unit where
  step r input := (if r.live then g.advance r input else r, ())

def start (sourceReads : Nat) (world : World) : GovernedRun where
  run := .start g.loop sourceReads
  world := world

end GovernedLoop

/-! ## The gate -/

/-- One event keeps the counters honest, provided that a `run_shell` that counts as the
verification of a change was executed. -/
theorem gate_update {u : Unicode} {policy : PlanningPolicy} {state state' : PlanningState}
    {args : ToolArgs} {toolStep : Nat} {redundant : Bool} {events : List ToolEvent}
    (event : ToolEvent) (hbounded : state.lastVerifiedChangeCount ≤ state.workspaceChangeCount)
    (hgate : state.workspaceChangeCount ≤ state.lastVerifiedChangeCount →
      VerifiedAfterLastChange events)
    (hupdate : state.updatePlanningState u policy event.name args event.metadata toolStep =
      some (state', redundant))
    (hruns : event.name = "run_shell" → event.metadata.toolStatus ≠ .rejected →
      state.lastVerifiedChangeCount < state.workspaceChangeCount → event.executed = true) :
    state'.lastVerifiedChangeCount ≤ state'.workspaceChangeCount ∧
      (state'.workspaceChangeCount ≤ state'.lastVerifiedChangeCount →
        VerifiedAfterLastChange (events ++ [event])) := by
  have hkeep : event.isChange = false → VerifiedAfterLastChange events →
      VerifiedAfterLastChange (events ++ [event]) := by
    intro hchange hverified
    cases hverification : event.isVerification with
    | true => exact verified_verification hchange hverification
    | false => exact (verified_other hchange hverification).mpr hverified
  rcases PlanningState.updatePlanningState_counters hupdate with
    ⟨haction, hcounters⟩ | ⟨haction, hname, hstatus, hcounters⟩ | ⟨haction, -, hcounters⟩
  · obtain ⟨hchanges, hverified⟩ := Prod.mk.inj hcounters
    rw [hchanges, hverified]
    cases hworkspace : event.metadata.workspaceChanged with
    | true =>
        simp only [if_true]
        exact ⟨by omega, fun h => by omega⟩
    | false =>
        have hchange : event.isChange = false := by simp [ToolEvent.isChange, hworkspace]
        exact ⟨hbounded, fun h => hkeep hchange (hgate h)⟩
  · obtain ⟨hchanges, hverified⟩ := Prod.mk.inj hcounters
    rw [hchanges, hverified]
    have hchange : event.isChange = false := by simp [ToolEvent.isChange, haction]
    refine ⟨by omega, fun _ => ?_⟩
    by_cases hopen : state.lastVerifiedChangeCount < state.workspaceChangeCount
    · refine verified_verification hchange ?_
      simp [ToolEvent.isVerification, hname, hruns hname hstatus hopen]
    · exact hkeep hchange (hgate (Nat.not_lt.mp hopen))
  · obtain ⟨hchanges, hverified⟩ := Prod.mk.inj hcounters
    rw [hchanges, hverified]
    have hchange : event.isChange = false := by simp [ToolEvent.isChange, haction]
    exact ⟨hbounded, fun h => hkeep hchange (hgate h)⟩

namespace GovernedLoop

variable {g : GovernedLoop} {r : GovernedRun} {input : GovernedInput}

/-- An open gate means a verified workspace, and a run that answered went through it. -/
structure Honest (g : GovernedLoop) (r : GovernedRun) : Prop where
  bounded : r.planning.lastVerifiedChangeCount ≤ r.planning.workspaceChangeCount
  gate : r.planning.workspaceChangeCount ≤ r.planning.lastVerifiedChangeCount →
    VerifiedAfterLastChange r.events
  success : g.loop.requiresWorkspaceChange = true → ∀ answer,
    r.run.outcome = some (.success answer) → VerifiedAfterLastChange r.events

/-- While a change waits for its verification, the breaker and the ledger let a
`run_shell` through. -/
def LetsVerify (g : GovernedLoop) (r : GovernedRun) (input : GovernedInput) : Prop :=
  ∀ tool, r.live = true → g.tool r input = some tool → tool.name = "run_shell" →
    r.planning.lastVerifiedChangeCount < r.planning.workspaceChangeCount →
    ¬ g.tools.Refused (r.beforeTool tool.name) (toolCall tool input.args)
      (readAnswers tool.name input.answers)

theorem readAnswers_prepare {name : String} (hname : name = "run_shell")
    (env : Answers ToolArgs) (result : String) :
    (readAnswers name env).prepare ≠ .ok (.answer result) := by
  subst hname
  rw [readAnswers, if_neg (by decide)]
  nofun

/-- What the tool answers does not decide which tool runs. -/
theorem iterated_no_success {it : Iteration} {tool : ToolRun} (result : String) (sourcePath : Bool)
    (htool : toolRun g.loop it r.run.state = some tool) (answer : String) :
    (g.iterated r { it with toolResult := result, sourcePath }).outcome ≠
      some (.success answer) := by
  intro h
  have hnone : toolRun g.loop it r.run.state = none := (iterate_success h).1
  rw [hnone] at htool
  cases htool

theorem honest_observe (hr : Honest g r) {tool : ToolRun} (htool : g.tool r input = some tool)
    {world : World} {result : String} {metadata : Metadata} {entered : Bool}
    (hruns : tool.name = "run_shell" → metadata.toolStatus ≠ .rejected →
      r.planning.lastVerifiedChangeCount < r.planning.workspaceChangeCount → entered = true) :
    Honest g (g.observe r input tool world result metadata entered) := by
  unfold observe
  dsimp only
  split
  · refine ⟨hr.bounded, hr.gate, ?_⟩
    intro _ answer h
    exact absurd h (iterated_no_success _ _ htool answer)
  · split
    · exact ⟨hr.bounded, hr.gate, hr.success⟩
    · next planning _ hupdate =>
        obtain ⟨hbounded, hgate⟩ := gate_update { name := tool.name, metadata, executed := entered }
          hr.bounded hr.gate hupdate hruns
        refine ⟨hbounded, hgate, ?_⟩
        intro _ answer h
        exact absurd h (iterated_no_success _ _ htool answer)

theorem honest_advance (hr : Honest g r) (hlive : r.live = true) (hlets : LetsVerify g r input) :
    Honest g (g.advance r input) := by
  unfold advance
  cases htool : g.tool r input with
  | none =>
      refine ⟨hr.bounded, hr.gate, ?_⟩
      intro hchange answer h
      exact hr.gate ((iterate_success h).2 hchange)
  | some tool =>
      dsimp only
      split
      · next result metadata hresult hmeta =>
          refine honest_observe hr htool fun hname hstatus hopen => ?_
          rw [execute] at hmeta ⊢
          exact (ToolContext.execute_entered_iff hmeta hstatus
            (readAnswers_prepare hname input.answers)).mpr (hlets tool hlive htool hname hopen)
      · exact ⟨hr.bounded, hr.gate, hr.success⟩

theorem honest_next (hr : Honest g r) (hlets : LetsVerify g r input) :
    Honest g (g.machine.next r input) := by
  show Honest g (if r.live then g.advance r input else r)
  split
  · next hlive => exact honest_advance hr hlive hlets
  · exact hr

theorem honest_start (g : GovernedLoop) (sourceReads : Nat) (world : World) :
    Honest g (g.start sourceReads world) :=
  ⟨Nat.le_refl 0, fun _ => verified_nil, nofun⟩

/-- In a run whose unverified changes always meet a breaker and a ledger that let
`run_shell` through, a final answer comes after a command that was executed after the
last change. -/
theorem verification_follows_change (g : GovernedLoop) (sourceReads : Nat) (world : World)
    (inputs : List GovernedInput) (hchange : g.loop.requiresWorkspaceChange = true)
    (hlets : g.machine.Along (LetsVerify g) (g.start sourceReads world) inputs) (answer : String)
    (hsuccess : (g.machine.run (g.start sourceReads world) inputs).run.outcome =
      some (.success answer)) :
    VerifiedAfterLastChange (g.machine.run (g.start sourceReads world) inputs).events := by
  have hhonest := Machine.run_invariant (fun r input => honest_next)
    (honest_start g sourceReads world) hlets
  exact hhonest.success hchange answer hsuccess

/-! ## Two runs -/

theorem not_refused {ctx : ToolContext ToolArgs} {w : World} {call : Call ToolArgs}
    {env : Answers ToolArgs}
    (hallow : (w.breaker.allow (strip call.name) env.allowClock).1 = true)
    (hledger : (w.store.visibleLedger w.taskState).lookup (strip call.operationKey) = none) :
    ¬ ctx.Refused w call env := by
  rintro ⟨tool, _, _, -, -, ⟨-, hno⟩ | ⟨-, -, -, -, previous, hprevious⟩⟩
  · rw [hallow] at hno
    cases hno
  · rw [hledger] at hprevious
    cases hprevious

/-- A turn that must change the workspace, with a tool to change it and one to run
commands. -/
def fixLoop : GovernedLoop where
  loop :=
    { compiler := { readCompiler with tokens := fun _ => 1 }
      userMessage := "Fix the parser."
      requiresWorkspaceChange := true }
  tools :=
    { tools := AList.insert "run_shell" { risky := true, sideEffect := true }
        (AList.insert "patch_file" { risky := true, sideEffect := true } ∅)
      digest := ToolArgs.json
      repeatLimit := 3
      approvalReadOnly := false }
  unicode := asciiUnicode

/-- The turn begins with a closed circuit and an empty ledger. -/
def fixStart : GovernedRun :=
  fixLoop.start 0 (.startRun {} ∅
    { runId := "run-1", taskId := "task-1", userRequest := "Fix the parser." })

def command (id : String) : ToolCall := { id, name := "run_shell", arguments := "" }

def patch (id : String) : ToolCall := { id, name := "patch_file", arguments := "" }

def modelAnswers (text : String) (toolCalls : List ToolCall) (answers : Answers ToolArgs) :
    GovernedInput where
  iteration :=
    { layers := { userMessage := "Fix the parser." }
      response := some { text, toolCalls } }
  answers := answers

/-- The next call of a batch. -/
def nextCall (answers : Answers ToolArgs) : GovernedInput where
  iteration := { layers := { userMessage := "Fix the parser." } }
  answers := answers

def failingTests : Answers ToolArgs :=
  { run := fun _ => .ok "exit_code: 1", validateResult := (false, "nonzero_exit_code") }

def passingTests : Answers ToolArgs := { run := fun _ => .ok "exit_code: 0" }

def patches : Answers ToolArgs :=
  { run := fun _ => .ok "patched parser.py"
    snapshotAfter := .ok (AList.insert "parser.py" "1f" ∅) }

def patchAndTest : GovernedInput := modelAnswers "" [patch "call-1", command "call-2"] patches

/-- The model patches, runs the tests and answers. -/
def patchThenTest : List GovernedInput :=
  [patchAndTest, nextCall passingTests, modelAnswers "done" [] passingTests]

def patched : GovernedRun := fixLoop.machine.next fixStart patchAndTest

/-- The run answers; its second call runs the tests, and neither the breaker nor the
ledger has anything against them; after it nothing waits for a verification. -/
theorem patchThenTest_trace :
    (fixLoop.machine.run fixStart patchThenTest).run.outcome = some (.success "done") ∧
      fixLoop.tool patched (nextCall passingTests) =
        some { name := "run_shell", callId := "call-2", recovered := false } ∧
      ((patched.beforeTool "run_shell").breaker.allow "run_shell" 0).1 = true ∧
      ((patched.beforeTool "run_shell").store.visibleLedger
        (patched.beforeTool "run_shell").taskState).lookup "call-2" = none ∧
      ¬ (fixLoop.machine.next patched (nextCall passingTests)).planning.lastVerifiedChangeCount <
        (fixLoop.machine.next patched (nextCall passingTests)).planning.workspaceChangeCount := by
  decide +kernel

theorem patchThenTest_verified :
    (fixLoop.machine.run fixStart patchThenTest).run.outcome = some (.success "done") ∧
      VerifiedAfterLastChange (fixLoop.machine.run fixStart patchThenTest).events := by
  obtain ⟨hsuccess, hcommand, hallow, hledger, hverified⟩ := patchThenTest_trace
  refine ⟨hsuccess, verification_follows_change fixLoop 0 _ patchThenTest rfl ?_ "done" hsuccess⟩
  refine ⟨?_, ?_, ?_, trivial⟩
  · intro tool _ _ _ hopen
    exact absurd hopen (Nat.lt_irrefl 0)
  · intro tool _ htool _ _
    cases hcommand.symm.trans htool
    exact not_refused hallow hledger
  · intro tool _ _ _ hopen
    exact absurd hopen hverified

/-- The tests fail three times and open the circuit of `run_shell`; the model patches,
asks for the tests once more, is told that the circuit is open, and answers. -/
def testThenPatch : List GovernedInput :=
  [modelAnswers "" [command "call-1", command "call-2", command "call-3", patch "call-4",
      command "call-5"] failingTests,
    nextCall failingTests, nextCall failingTests, nextCall patches, nextCall passingTests,
    modelAnswers "done" [] passingTests]

theorem testThenPatch_unverified :
    fixLoop.loop.requiresWorkspaceChange = true ∧
      (fixLoop.machine.run fixStart testThenPatch).run.outcome = some (.success "done") ∧
      ¬ VerifiedAfterLastChange (fixLoop.machine.run fixStart testThenPatch).events := by
  decide +kernel

end GovernedLoop

end Agent
end CodeCub

import CodeCub.Native.Assembler
import CodeCub.Native.Continuity

/-!
# The native loop

`AgentLoop.run` in native-tools mode.  One iteration either takes the next call of a
queued batch or assembles the transcript, validates it and asks the provider; it then
classifies the call, runs the tool and appends what the conversation needs.  The
collaborators answer through `Iteration`: cancellation, the planning state, the other
checks of the validator, the model, the edit-decision and progress watchdogs and the
tool itself.  Whatever they answer, a list reaches the provider only through the
validation gate.
-/

namespace CodeCub
namespace Native

open Python

/-! ## Texts -/

def recoveryTurnPrompt : String :=
  "Your recent actions have not produced new evidence, workspace changes, " ++
    "or new verification information.\n\n" ++
    "Summarize:\n" ++
    "1. what is already known,\n" ++
    "2. the current blocker,\n" ++
    "3. why the recent strategy is not progressing,\n" ++
    "4. choose a materially different next action.\n\n" ++
    "Do not repeat the same search/read/test pattern."

def editDecisionPrompt : String :=
  "Edit-decision phase: choose one direct native " ++
    "tool call. Use patch_file or write_file for the " ++
    "smallest justified edit; request read_file, search, " ++
    "or symbol_search only for essential missing evidence."

def invalidDecisionNotice : String :=
  "Invalid edit decision; submit one allowed structured decision."

def repeatedEvidenceNotice : String :=
  "Repeated evidence request: this read/search/symbol " ++
    "repeats already-observed evidence without a workspace " ++
    "change. Make the smallest justified edit now, or " ++
    "request genuinely new evidence (new file, new range, " ++
    "new symbol, new search, or a re-read after a file change)."

def retryNotice (problem : String) : String :=
  "Runtime notice: " ++ problem ++
    ". Reply with a valid <tool> call or a non-empty <final> answer. " ++
    "For multi-line files, prefer <tool name=\"write_file\" path=\"file.py\">" ++
    "<content>...</content></tool>."

def needEvidenceFeedback : String :=
  "Edit decision recorded as need_evidence and executed. " ++
    "Continue while each request adds genuinely new evidence " ++
    "(new file, new range, new symbol, new search, or a re-read " ++
    "after a file change); repeated evidence with no workspace " ++
    "change will be rejected. When the evidence is sufficient, " ++
    "make the smallest justified edit."

def editFeedback : String :=
  "Edit decision recorded as edit. " ++
    "Run a focused verification command before finalizing."

def verificationNotice : String :=
  "A workspace change was made but has not been verified. " ++
    "Run one focused verification command now, then provide the final answer."

/-! ## The validation gate -/

inductive HardFailure where
  | budgetExceeded
  | providerContextLimitExceeded
  | staleRequiredContext
  | nativeContinuityInvalid
  | other (reasonCode : String)
  deriving DecidableEq, Repr

def HardFailure.retryable : HardFailure → Bool
  | .budgetExceeded => true
  | .providerContextLimitExceeded => true
  | .staleRequiredContext => true
  | .nativeContinuityInvalid => false
  | .other _ => false

inductive ValidationAction where
  | allow
  | retryAssembly
  | reject
  deriving DecidableEq, Repr

/-- `ContextValidator.validate` of a native list, given the hard failures of its
other checks. -/
def validate (nativeSeedRequired : Bool) (otherFailures : List HardFailure)
    (messages : List Message) : ValidationAction :=
  let hardFailures := otherFailures ++
    (if (checkNative nativeSeedRequired messages).isEmpty then []
      else [HardFailure.nativeContinuityInvalid])
  if hardFailures.isEmpty then
    .allow
  else if hardFailures.all HardFailure.retryable then
    .retryAssembly
  else
    .reject

/-! ## Loop state -/

/-- What stays fixed during one `run`.  `toolChoice` is `none` without a connection
profile, else whether the profile supports `tool_choice`. -/
structure LoopConfig where
  compiler : Compiler
  userMessage : String
  requiresWorkspaceChange : Bool := false
  toolChoice : Option Bool := none
  stepBudget : Option Nat := none
  emergencyCap : Nat := 500
  researchBudget : Option Nat := none
  requiresSourceEvidence : Bool := false
  nativeSeedRequired : Bool := true
  maxValidationAttempts : Nat := 1

def LoopConfig.attemptCap (cfg : LoopConfig) : Nat :=
  match cfg.stepBudget with
  | some budget => max (budget * 3) (budget + 4)
  | none => 1200

def LoopConfig.supportsToolChoice (cfg : LoopConfig) : Bool := cfg.toolChoice == some true

structure LoopState where
  session : Session
  pending : List ToolCall := []
  toolSteps : Nat := 0
  attempts : Nat := 0
  researchSteps : Nat := 0
  finalizationRequired : Bool := false
  finalizationRejections : Nat := 0
  validationFailures : Nat := 0
  sourceReads : Nat := 0

/-! The three dictionaries the loop appends; their identity is given when they are. -/

def userTurn (content : String) : Message :=
  { ref := 0, role := .user, content := some content }

def assistantTurn (text : String) (toolCalls : List ToolCall) : Message :=
  { ref := 0, role := .assistant, content := if text = "" then none else some text,
    toolCalls := toolCalls }

def toolTurn (callId content : String) : Message :=
  { ref := 0, role := .tool, content := some content, toolCallId := callId }

namespace LoopState

def append (s : LoopState) (message : Message) : LoopState :=
  { s with session := s.session.append [message] }

def say (s : LoopState) (content : String) : LoopState := s.append (userTurn content)

def answer (s : LoopState) (callId content : String) : LoopState :=
  s.append (toolTurn callId content)

/-- Keep a response: its assistant message, and its calls after the first queued. -/
def accept (s : LoopState) (text : String) (call : ToolCall) (rest : List ToolCall) : LoopState :=
  { s.append (assistantTurn text (call :: rest)) with pending := s.pending ++ rest }

end LoopState

inductive Outcome where
  | cancelled
  | limited
  | emergencyCap
  | modelError
  | stuck
  | finalizationFailed
  | success (answer : String)
  deriving DecidableEq, Repr

/-! ## What the collaborators answer during one iteration -/

structure Planning where
  actionExpected : Bool := false
  workspaceChangeCount : Nat := 0
  lastVerifiedChangeCount : Nat := 0

structure Response where
  text : String
  toolCalls : List ToolCall := []

/-- What `call.arguments` of a `submit_edit_decision` holds. -/
structure Submission where
  decision : Option String := none
  tool : Option String := none
  argumentsDict : Bool := false

structure Watchdog where
  suspectedNow : Bool := false
  confirmedNow : Bool := false

structure Iteration where
  cancelledAtTop : Bool := false
  cancelledBeforeModel : Bool := false
  cancelledAfterModel : Bool := false
  cancelledAfterTool : Bool := false
  planning : Planning := {}
  layers : Layers
  otherFailures : List HardFailure := []
  /-- `none` when the request raises. -/
  response : Option Response := none
  /-- The call recovered from a text that is one legacy tool call. -/
  recovered : Option ToolCall := none
  submission : Submission := {}
  evidenceProgress : Bool := false
  watchdog : Watchdog := {}
  toolResult : String := ""
  sourcePath : Bool := false

/-! ## Classifying a call -/

inductive Decision where
  | edit
  | needEvidence
  deriving DecidableEq, Repr

inductive Parsed where
  | tool (name : String) (editDecision : Option Decision)
  | retry (notice : String)
  | recoveryTurn
  | stuck
  deriving DecidableEq, Repr

/-- The phase in which a call is an edit decision. -/
def editDecisionPhase (cfg : LoopConfig) (planning : Planning) : Bool :=
  cfg.requiresWorkspaceChange && planning.actionExpected && planning.workspaceChangeCount == 0

/-- A submitted decision, or a direct call of the compatibility mode.  Evidence that
repeats itself is refused and counts for the progress watchdog. -/
def parseDecision (it : Iteration) (decision requested : Option String) (argumentsDict : Bool) :
    Parsed :=
  if decision = some "edit" then
    if argumentsDict then
      match requested with
      | some name =>
          if name ∈ ["patch_file", "write_file"] then .tool name (some .edit)
          else .retry invalidDecisionNotice
      | none => .retry invalidDecisionNotice
    else
      .retry invalidDecisionNotice
  else if decision = some "need_evidence" then
    if argumentsDict then
      match requested with
      | some name =>
          if name ∈ ["read_file", "search", "symbol_search"] then
            if it.evidenceProgress then .tool name (some .needEvidence)
            else if it.watchdog.suspectedNow then .recoveryTurn
            else if it.watchdog.confirmedNow then .stuck
            else .retry repeatedEvidenceNotice
          else
            .retry invalidDecisionNotice
      | none => .retry invalidDecisionNotice
    else
      .retry invalidDecisionNotice
  else
    .retry invalidDecisionNotice

def classify (cfg : LoopConfig) (it : Iteration) (call : ToolCall) : Parsed :=
  let fallbackDirectDecision := !cfg.supportsToolChoice && editDecisionPhase cfg it.planning &&
    call.name ∈ ["patch_file", "write_file", "read_file", "search", "symbol_search"]
  if fallbackDirectDecision then
    let decision := if call.name ∈ ["patch_file", "write_file"] then "edit" else "need_evidence"
    parseDecision it (some decision) (some call.name) true
  else if call.name = "submit_edit_decision" then
    parseDecision it it.submission.decision it.submission.tool it.submission.argumentsDict
  else
    .tool call.name none

def isResearchTool (name : String) : Bool := name ∈ ["list_files", "search", "read_file"]

/-! ## One iteration -/

/-- The state after an iteration, the outcome if it returned, and the list handed to
the provider if it asked. -/
structure Step where
  state : LoopState
  outcome : Option Outcome := none
  invoked : Option (List Message) := none

/-- Append the result and count source reads and research steps. -/
def recordResult (cfg : LoopConfig) (it : Iteration) (s : LoopState) (name callId : String) :
    LoopState :=
  { s.answer callId it.toolResult with
    sourceReads := s.sourceReads + (if name = "read_file" ∧ it.sourcePath then 1 else 0)
    researchSteps := s.researchSteps +
      (if cfg.researchBudget.isSome && isResearchTool name then 1 else 0) }

/-- Feedback on an edit decision waits until the batch is drained. -/
def decisionFeedback (editDecision : Option Decision) (s : LoopState) : LoopState :=
  match editDecision with
  | some .needEvidence => if s.pending.isEmpty then s.say needEvidenceFeedback else s
  | some .edit => if s.pending.isEmpty then s.say editFeedback else s
  | none => s

/-- Run the tool and append its result, the feedback of an edit decision and the
prompt of a recovery turn. -/
def executeTool (cfg : LoopConfig) (it : Iteration) (s : LoopState) (name callId : String)
    (editDecision : Option Decision) : LoopState × Option Outcome :=
  if s.finalizationRequired && isResearchTool name then
    let s := { s with finalizationRejections := s.finalizationRejections + 1 }
    (s, if 2 ≤ s.finalizationRejections then some .finalizationFailed else none)
  else
    let s := { s with toolSteps := s.toolSteps + 1 }
    if it.cancelledAfterTool then
      (s, some .cancelled)
    else
      let s := decisionFeedback editDecision (recordResult cfg it s name callId)
      if it.watchdog.suspectedNow then
        (s.say recoveryTurnPrompt, none)
      else if it.watchdog.confirmedNow then
        (s, some .stuck)
      else
        match cfg.researchBudget with
        | some budget =>
            ({ s with finalizationRequired :=
                s.finalizationRequired || Nat.ble budget s.researchSteps }, none)
        | none => (s, none)

/-- Handle the first call of a response; `queued` marks a call taken from an accepted
batch, whose assistant message is already in the transcript. -/
def handleCall (cfg : LoopConfig) (it : Iteration) (s : LoopState) (queued : Bool) (text : String)
    (call : ToolCall) (rest : List ToolCall) : LoopState × Option Outcome :=
  match classify cfg it call with
  | .recoveryTurn => (s.say recoveryTurnPrompt, none)
  | .stuck => (s, some .stuck)
  | .retry notice =>
      if queued then (s.answer call.id ("error: " ++ notice), none) else (s.say notice, none)
  | .tool name editDecision =>
      executeTool cfg it (if queued then s else s.accept text call rest) name call.id editDecision

/-- A non-empty final text ends the run, unless evidence or a verification is due. -/
def finalAnswer (cfg : LoopConfig) (it : Iteration) (s : LoopState) (finalText : String) :
    LoopState × Option Outcome :=
  if cfg.requiresSourceEvidence && s.sourceReads == 0 then
    (s, none)
  else if cfg.requiresWorkspaceChange &&
      Nat.blt it.planning.lastVerifiedChangeCount it.planning.workspaceChangeCount then
    (s.say verificationNotice, none)
  else
    (s, some (.success finalText))

/-- Handle what the provider answered. -/
def handleResponse (cfg : LoopConfig) (it : Iteration) (s : LoopState) (response : Response) :
    LoopState × Option Outcome :=
  let response := if response.toolCalls.isEmpty then
      match it.recovered with
      | some call => { text := "", toolCalls := [call] }
      | none => response
    else response
  match response.toolCalls with
  | call :: rest => handleCall cfg it s false response.text call rest
  | [] =>
      if strip response.text = "" then
        (s.say (retryNotice "model returned an empty final response"), none)
      else
        finalAnswer cfg it s (strip response.text)

/-- The stop conditions at the top of the loop. -/
def limitReached (cfg : LoopConfig) (s : LoopState) : Option Outcome :=
  match cfg.stepBudget with
  | some budget =>
      if budget ≤ s.toolSteps ∨ cfg.attemptCap ≤ s.attempts then some .limited else none
  | none =>
      if cfg.emergencyCap ≤ s.toolSteps then some .emergencyCap
      else if cfg.attemptCap ≤ s.attempts then some .limited
      else none

/-- Assemble, validate and ask the provider. -/
def requestModel (cfg : LoopConfig) (it : Iteration) (s : LoopState) : Step :=
  let s := { s with session := (cfg.compiler.assemble cfg.userMessage s.session it.layers).1 }
  match validate cfg.nativeSeedRequired it.otherFailures s.session.messages with
  | .allow =>
      let messages := s.session.messages
      let s := { s with validationFailures := 0 }
      match it.response with
      | none => { state := s, outcome := some .modelError, invoked := some messages }
      | some response =>
          if it.cancelledAfterModel then
            { state := s, outcome := some .cancelled, invoked := some messages }
          else
            let handled := handleResponse cfg it s response
            { state := handled.1, outcome := handled.2, invoked := some messages }
  | .retryAssembly =>
      if s.validationFailures < cfg.maxValidationAttempts then
        { state := { s with validationFailures := s.validationFailures + 1 } }
      else
        { state := s, outcome := some .modelError }
  | .reject => { state := s, outcome := some .modelError }

/-- A provider that rejects `tool_choice` is asked for the decision in words. -/
def promptDecision (cfg : LoopConfig) (it : Iteration) (s : LoopState) : LoopState :=
  if editDecisionPhase cfg it.planning && cfg.toolChoice == some false then
    s.say editDecisionPrompt
  else
    s

/-- Take the next queued call, or ask the provider. -/
def proceed (cfg : LoopConfig) (it : Iteration) (s : LoopState) : Step :=
  match s.pending with
  | call :: rest =>
      if it.cancelledAfterModel then
        { state := { s with pending := rest }, outcome := some .cancelled }
      else
        let handled := handleCall cfg it { s with pending := rest } true "" call []
        { state := handled.1, outcome := handled.2 }
  | [] => requestModel cfg it (promptDecision cfg it s)

def iterate (cfg : LoopConfig) (s : LoopState) (it : Iteration) : Step :=
  if it.cancelledAtTop then
    { state := s, outcome := some .cancelled }
  else
    match limitReached cfg s with
    | some outcome => { state := s, outcome := some outcome }
    | none =>
        let s := { s with attempts := s.attempts + 1 }
        if it.cancelledBeforeModel then
          { state := s, outcome := some .cancelled }
        else
          proceed cfg it s

/-! ## Whole runs -/

structure LoopRun where
  state : LoopState
  outcome : Option Outcome := none

def LoopRun.start (cfg : LoopConfig) (sourceReads : Nat) : LoopRun :=
  { state := { session := .start cfg.userMessage, sourceReads := sourceReads } }

/-- A returned run stays as it is. -/
def agentLoop (cfg : LoopConfig) : Machine LoopRun Iteration (Option (List Message)) where
  step r it :=
    match r.outcome with
    | some _ => (r, none)
    | none =>
        let step := iterate cfg r.state it
        ({ state := step.state, outcome := step.outcome }, step.invoked)

/-! ## Where an iteration ends -/

theorem limitReached_no_success {cfg : LoopConfig} {s : LoopState} {outcome : Outcome}
    (h : limitReached cfg s = some outcome) (answer : String) : outcome ≠ .success answer := by
  unfold limitReached at h
  split at h
  · split at h
    · cases h
      nofun
    · cases h
  · split at h
    · cases h
      nofun
    · split at h
      · cases h
        nofun
      · cases h

/-- An iteration returns at the top of the loop, without an answer, or goes on to the
next call. -/
theorem iterate_cases (cfg : LoopConfig) (s : LoopState) (it : Iteration) :
    (∃ state outcome, iterate cfg s it = { state, outcome := some outcome } ∧
      ∀ answer, outcome ≠ .success answer) ∨
    (it.cancelledAtTop = false ∧ limitReached cfg s = none ∧ it.cancelledBeforeModel = false ∧
      iterate cfg s it = proceed cfg it { s with attempts := s.attempts + 1 }) := by
  unfold iterate
  cases it.cancelledAtTop with
  | true => exact Or.inl ⟨_, _, rfl, nofun⟩
  | false =>
      cases hlimit : limitReached cfg s with
      | some outcome => exact Or.inl ⟨_, _, rfl, limitReached_no_success hlimit⟩
      | none =>
          cases it.cancelledBeforeModel with
          | true => exact Or.inl ⟨_, _, rfl, nofun⟩
          | false => exact Or.inr ⟨rfl, rfl, rfl, rfl⟩

/-! ## Only valid lists reach the provider -/

theorem checkNative_of_allow {nativeSeedRequired : Bool} {otherFailures : List HardFailure}
    {messages : List Message} (h : validate nativeSeedRequired otherFailures messages = .allow) :
    checkNative nativeSeedRequired messages = [] := by
  unfold validate at h
  dsimp only at h
  by_cases hnative : (checkNative nativeSeedRequired messages).isEmpty = true
  · rwa [List.isEmpty_iff] at hnative
  · rw [if_neg hnative] at h
    split at h
    · rename_i hempty
      simp at hempty
    · split at h <;> cases h

theorem requestModel_invoked {cfg : LoopConfig} {it : Iteration} {s : LoopState}
    {messages : List Message} (h : (requestModel cfg it s).invoked = some messages) :
    checkNative cfg.nativeSeedRequired messages = [] := by
  unfold requestModel at h
  dsimp only at h
  split at h
  · rename_i hallow
    have hlist : (cfg.compiler.assemble cfg.userMessage s.session it.layers).1.messages =
        messages := by
      split at h
      · exact Option.some.inj h
      · split at h <;> exact Option.some.inj h
    rw [← hlist]
    exact checkNative_of_allow hallow
  · split at h <;> cases h
  · cases h

theorem proceed_invoked {cfg : LoopConfig} {it : Iteration} {s : LoopState}
    {messages : List Message} (h : (proceed cfg it s).invoked = some messages) :
    checkNative cfg.nativeSeedRequired messages = [] := by
  unfold proceed at h
  split at h
  · split at h <;> cases h
  · exact requestModel_invoked h

theorem iterate_invoked {cfg : LoopConfig} {s : LoopState} {it : Iteration}
    {messages : List Message} (h : (iterate cfg s it).invoked = some messages) :
    checkNative cfg.nativeSeedRequired messages = [] := by
  rcases iterate_cases cfg s it with ⟨state, outcome, heq, -⟩ | ⟨-, -, -, heq⟩
  · rw [heq] at h
    cases h
  · rw [heq] at h
    exact proceed_invoked h

/-- A list handed to the provider, if there is one, answers every call of every
assistant message exactly once before the conversation goes on, and the validator
has nothing against it. -/
def ProviderBound (cfg : LoopConfig) : Option (List Message) → Prop
  | none => True
  | some messages =>
      WellFormed messages ∧ checkNative cfg.nativeSeedRequired messages = []

theorem iterate_providerBound (cfg : LoopConfig) (s : LoopState) (it : Iteration) :
    ProviderBound cfg (iterate cfg s it).invoked := by
  cases hinvoked : (iterate cfg s it).invoked with
  | none => trivial
  | some messages =>
      have hcheck := iterate_invoked hinvoked
      exact ⟨checkNative_sound hcheck, hcheck⟩

/-- In every run of the loop, whatever the model, the tools, the watchdogs and the
budgets do, every list that reaches the provider is well formed. -/
theorem native_transcript_wellFormed (cfg : LoopConfig) (sourceReads : Nat)
    (iterations : List Iteration) :
    (agentLoop cfg).Along (fun r it => ProviderBound cfg ((agentLoop cfg).out r it))
      (.start cfg sourceReads) iterations := by
  rw [Machine.along_iff_split]
  intro before it after _
  show ProviderBound cfg ((agentLoop cfg).step ((agentLoop cfg).run (.start cfg sourceReads)
    before) it).2
  unfold agentLoop
  dsimp only
  split
  · trivial
  · exact iterate_providerBound cfg _ it

end Native
end CodeCub

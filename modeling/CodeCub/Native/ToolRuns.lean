import CodeCub.Native.Loop

/-!
# The tool of an iteration

An iteration runs at most one tool.  `toolRun` reads it off the state and the answers
of the collaborators, without what the tool itself answers, so that a model of the
tool's execution can be put in its place.  The tool-step counter moves exactly when
there is one, the attempt counter always, and an iteration that returns a final answer
runs no tool.
-/

namespace CodeCub
namespace Native

/-- The tool that an iteration runs; `recovered` marks a call read out of a text. -/
structure ToolRun where
  name : String
  callId : String
  recovered : Bool
  deriving DecidableEq, Repr

/-- The tool that handling this call runs. -/
def callRun (cfg : LoopConfig) (it : Iteration) (s : LoopState) (call : ToolCall)
    (recovered : Bool) : Option ToolRun :=
  match classify cfg it call with
  | .tool name _ =>
      if s.finalizationRequired && isResearchTool name then none
      else some { name, callId := call.id, recovered }
  | _ => none

def responseRun (cfg : LoopConfig) (it : Iteration) (s : LoopState) (response : Response) :
    Option ToolRun :=
  match response.toolCalls, it.recovered with
  | call :: _, _ => callRun cfg it s call false
  | [], some call => callRun cfg it s call true
  | [], none => none

def requestRun (cfg : LoopConfig) (it : Iteration) (s : LoopState) : Option ToolRun :=
  let messages := (cfg.compiler.assemble cfg.userMessage s.session it.layers).1.messages
  match validate cfg.nativeSeedRequired it.otherFailures messages with
  | .allow =>
      match it.response with
      | none => none
      | some response => if it.cancelledAfterModel then none else responseRun cfg it s response
  | _ => none

def toolRun (cfg : LoopConfig) (it : Iteration) (s : LoopState) : Option ToolRun :=
  if it.cancelledAtTop || (limitReached cfg s).isSome || it.cancelledBeforeModel then none
  else
    let s := { s with attempts := s.attempts + 1 }
    match s.pending with
    | call :: _ => if it.cancelledAfterModel then none else callRun cfg it s call false
    | [] => requestRun cfg it (promptDecision cfg it s)

/-! ## The two counters -/

/-- The tool steps and the attempts. -/
def LoopState.counters (s : LoopState) : Nat × Nat := (s.toolSteps, s.attempts)

/-- The counters after running this tool, or none. -/
def LoopState.stepped (s : LoopState) (run : Option ToolRun) : Nat × Nat :=
  (s.toolSteps + (if run.isSome then 1 else 0), s.attempts)

@[simp] theorem say_counters (s : LoopState) (content : String) :
    (s.say content).counters = s.counters := rfl

@[simp] theorem stepped_none (s : LoopState) : s.stepped none = s.counters := rfl

@[simp] theorem decisionFeedback_counters (d : Option Decision) (s : LoopState) :
    (decisionFeedback d s).counters = s.counters := by
  unfold decisionFeedback
  split
  · split <;> rfl
  · split <;> rfl
  · rfl

@[simp] theorem recordResult_counters (cfg : LoopConfig) (it : Iteration) (s : LoopState)
    (name callId : String) : (recordResult cfg it s name callId).counters = s.counters := rfl

theorem promptDecision_stepped (cfg : LoopConfig) (it : Iteration) (s : LoopState)
    (run : Option ToolRun) : (promptDecision cfg it s).stepped run = s.stepped run := by
  unfold promptDecision
  split <;> rfl

variable {cfg : LoopConfig} {it : Iteration} {s : LoopState}

theorem executeTool_refused {name : String}
    (h : (s.finalizationRequired && isResearchTool name) = true) (callId : String) (d : Option Decision) :
    (executeTool cfg it s name callId d).1.counters = s.counters := by
  unfold executeTool
  rw [if_pos h]
  rfl

theorem executeTool_counters {name : String}
    (h : ¬ (s.finalizationRequired && isResearchTool name) = true) (callId : String)
    (d : Option Decision) :
    (executeTool cfg it s name callId d).1.counters = (s.toolSteps + 1, s.attempts) := by
  unfold executeTool
  rw [if_neg h]
  dsimp only
  have hcounters : (decisionFeedback d (recordResult cfg it { s with toolSteps := s.toolSteps + 1 }
      name callId)).counters = (s.toolSteps + 1, s.attempts) := by
    rw [decisionFeedback_counters, recordResult_counters]
    rfl
  split
  · rfl
  · split
    · rw [say_counters, hcounters]
    · split
      · exact hcounters
      · split
        · exact hcounters
        · exact hcounters

theorem handleCall_counters (queued : Bool) (text : String) (call : ToolCall)
    (rest : List ToolCall) (recovered : Bool) :
    (handleCall cfg it s queued text call rest).1.counters =
      s.stepped (callRun cfg it s call recovered) := by
  unfold handleCall callRun
  cases classify cfg it call with
  | recoveryTurn => rfl
  | stuck => rfl
  | retry notice => cases queued <;> rfl
  | tool name d =>
      dsimp only
      by_cases hfinal : (s.finalizationRequired && isResearchTool name) = true
      · rw [if_pos hfinal, stepped_none]
        cases queued with
        | true => exact executeTool_refused hfinal _ _
        | false => exact executeTool_refused (s := s.accept text call rest) hfinal _ _
      · rw [if_neg hfinal]
        cases queued with
        | true => exact executeTool_counters hfinal _ _
        | false => exact executeTool_counters (s := s.accept text call rest) hfinal _ _

theorem finalAnswer_counters (text : String) :
    (finalAnswer cfg it s text).1.counters = s.counters := by
  unfold finalAnswer
  split
  · rfl
  · split <;> rfl

theorem handleResponse_counters (response : Response) :
    (handleResponse cfg it s response).1.counters =
      s.stepped (responseRun cfg it s response) := by
  unfold handleResponse responseRun
  cases hcalls : response.toolCalls with
  | cons call rest =>
      simp only [List.isEmpty_cons, Bool.false_eq_true, if_false, hcalls]
      exact handleCall_counters _ _ _ _ _
  | nil =>
      cases hrecovered : it.recovered with
      | some call => exact handleCall_counters _ _ _ _ _
      | none =>
          simp only [List.isEmpty_nil, if_true, hcalls]
          split
          · rfl
          · exact finalAnswer_counters _

theorem requestModel_counters :
    (requestModel cfg it s).state.counters = s.stepped (requestRun cfg it s) := by
  unfold requestModel requestRun
  dsimp only
  cases validate cfg.nativeSeedRequired it.otherFailures
      (cfg.compiler.assemble cfg.userMessage s.session it.layers).1.messages with
  | allow =>
      cases it.response with
      | none => rfl
      | some response =>
          cases it.cancelledAfterModel with
          | true => rfl
          | false => exact handleResponse_counters response
  | retryAssembly =>
      dsimp only
      split <;> rfl
  | reject => rfl

theorem proceed_counters (htop : it.cancelledAtTop = false) (hlimit : limitReached cfg s = none)
    (hbefore : it.cancelledBeforeModel = false) :
    (proceed cfg it { s with attempts := s.attempts + 1 }).state.counters =
      { s with attempts := s.attempts + 1 }.stepped (toolRun cfg it s) := by
  unfold proceed toolRun
  simp only [htop, hlimit, hbefore, Bool.false_or, Option.isSome_none, Bool.false_eq_true, if_false]
  cases s.pending with
  | nil =>
      dsimp only
      rw [requestModel_counters, promptDecision_stepped]
  | cons call rest =>
      cases it.cancelledAfterModel with
      | true => rfl
      | false => exact handleCall_counters _ _ _ _ _

/-- An iteration after which the loop goes on is one attempt, and a tool step exactly
when it runs a tool. -/
theorem iterate_counters (h : (iterate cfg s it).outcome = none) :
    (iterate cfg s it).state.counters =
      (s.toolSteps + (if (toolRun cfg it s).isSome then 1 else 0), s.attempts + 1) := by
  rcases iterate_cases cfg s it with ⟨state, outcome, heq, -⟩ | ⟨htop, hlimit, hbefore, heq⟩
  · rw [heq] at h
    cases h
  · rw [heq]
    exact proceed_counters htop hlimit hbefore

/-! ## Returning an answer -/

theorem executeTool_no_success (name callId answer : String) (d : Option Decision) :
    (executeTool cfg it s name callId d).2 ≠ some (.success answer) := by
  unfold executeTool
  split
  · dsimp only
    split <;> nofun
  · dsimp only
    split
    · nofun
    · split
      · nofun
      · split
        · nofun
        · split <;> nofun

theorem handleCall_no_success (queued : Bool) (text answer : String) (call : ToolCall)
    (rest : List ToolCall) :
    (handleCall cfg it s queued text call rest).2 ≠ some (.success answer) := by
  unfold handleCall
  split
  · nofun
  · nofun
  · split <;> nofun
  · exact executeTool_no_success _ _ _ _

/-- The verification gate. -/
theorem finalAnswer_success {text answer : String}
    (h : (finalAnswer cfg it s text).2 = some (.success answer))
    (hchange : cfg.requiresWorkspaceChange = true) :
    it.planning.workspaceChangeCount ≤ it.planning.lastVerifiedChangeCount := by
  unfold finalAnswer at h
  split at h
  · cases h
  · split at h
    · cases h
    · next hgate =>
        rw [hchange, Bool.true_and, Bool.not_eq_true, ← Bool.not_eq_true] at hgate
        rw [Nat.blt_eq] at hgate
        omega

theorem handleResponse_success {response : Response} {answer : String}
    (h : (handleResponse cfg it s response).2 = some (.success answer)) :
    responseRun cfg it s response = none ∧ (cfg.requiresWorkspaceChange = true →
      it.planning.workspaceChangeCount ≤ it.planning.lastVerifiedChangeCount) := by
  unfold handleResponse at h
  unfold responseRun
  cases hcalls : response.toolCalls with
  | cons call rest =>
      simp only [hcalls, List.isEmpty_cons, Bool.false_eq_true, if_false] at h
      exact absurd h (handleCall_no_success _ _ _ _ _)
  | nil =>
      cases hrecovered : it.recovered with
      | some call =>
          simp only [hcalls, hrecovered, List.isEmpty_nil, if_true] at h
          exact absurd h (handleCall_no_success _ _ _ _ _)
      | none =>
          refine ⟨rfl, ?_⟩
          simp only [hcalls, hrecovered, List.isEmpty_nil, if_true] at h
          split at h
          · cases h
          · exact finalAnswer_success h

theorem requestModel_success {answer : String}
    (h : (requestModel cfg it s).outcome = some (.success answer)) :
    requestRun cfg it s = none ∧ (cfg.requiresWorkspaceChange = true →
      it.planning.workspaceChangeCount ≤ it.planning.lastVerifiedChangeCount) := by
  unfold requestModel at h
  unfold requestRun
  dsimp only at h ⊢
  cases hvalid : validate cfg.nativeSeedRequired it.otherFailures
      (cfg.compiler.assemble cfg.userMessage s.session it.layers).1.messages with
  | allow =>
      rw [hvalid] at h
      cases hresponse : it.response with
      | none =>
          rw [hresponse] at h
          cases h
      | some response =>
          rw [hresponse] at h
          cases hcancelled : it.cancelledAfterModel with
          | true =>
              rw [hcancelled] at h
              cases h
          | false =>
              simp only [hcancelled, Bool.false_eq_true, if_false] at h
              -- handling reads nothing that assembling the list has changed
              have hhandled := handleResponse_success h
              exact hhandled
  | retryAssembly =>
      rw [hvalid] at h
      dsimp only at h
      split at h <;> cases h
  | reject =>
      rw [hvalid] at h
      cases h

theorem proceed_success {answer : String} (htop : it.cancelledAtTop = false)
    (hlimit : limitReached cfg s = none) (hbefore : it.cancelledBeforeModel = false)
    (h : (proceed cfg it { s with attempts := s.attempts + 1 }).outcome =
      some (.success answer)) :
    toolRun cfg it s = none ∧ (cfg.requiresWorkspaceChange = true →
      it.planning.workspaceChangeCount ≤ it.planning.lastVerifiedChangeCount) := by
  unfold proceed at h
  unfold toolRun
  simp only [htop, hlimit, hbefore, Bool.false_or, Option.isSome_none, Bool.false_eq_true, if_false]
  cases hpending : s.pending with
  | nil =>
      rw [hpending] at h
      exact requestModel_success h
  | cons call rest =>
      rw [hpending] at h
      dsimp only at h
      split at h
      · cases h
      · exact absurd h (handleCall_no_success _ _ _ _ _)

/-- An iteration returns a final answer only through the gate, and runs no tool. -/
theorem iterate_success {answer : String}
    (h : (iterate cfg s it).outcome = some (.success answer)) :
    toolRun cfg it s = none ∧ (cfg.requiresWorkspaceChange = true →
      it.planning.workspaceChangeCount ≤ it.planning.lastVerifiedChangeCount) := by
  rcases iterate_cases cfg s it with ⟨state, outcome, heq, hno⟩ | ⟨htop, hlimit, hbefore, heq⟩
  · rw [heq] at h
    exact absurd (Option.some.inj h) (hno answer)
  · rw [heq] at h
    exact proceed_success htop hlimit hbefore h

end Native
end CodeCub

import CodeCub.Native.Loop

/-!
# Batches of calls

The loop appends to the transcript in some ten branches.  Between two requests it
drains the queued calls of the last batch, one result for each, and speaks to the
model only when no call waits.  Two branches break this: the refusal of a research
tool after the research budget, and a recovery turn inside a batch.  In a run
without them the list that an assembly builds has no continuity finding, so the gate
has nothing to refuse.
-/

namespace CodeCub
namespace Native

/-- The calls this iteration looks at: the queued ones, or those of the response. -/
def handledCalls (s : LoopState) (it : Iteration) : List ToolCall :=
  match s.pending with
  | call :: rest => call :: rest
  | [] =>
      match it.response with
      | none => []
      | some response =>
          if response.toolCalls.isEmpty then it.recovered.toList else response.toolCalls

/-- Handling `call` leaves it without a result though its batch is in the transcript,
or speaks while `rest` still waits. -/
def abandonsCall (cfg : LoopConfig) (it : Iteration) (finalizationRequired queued : Bool)
    (call : ToolCall) (rest : List ToolCall) : Bool :=
  match classify cfg it call with
  | .recoveryTurn => queued
  | .tool name _ => (finalizationRequired && isResearchTool name) ||
      (it.watchdog.suspectedNow && !rest.isEmpty)
  | .retry _ => false
  | .stuck => false

def abandons (cfg : LoopConfig) (s : LoopState) (it : Iteration) : Bool :=
  match handledCalls s it with
  | [] => false
  | call :: rest => abandonsCall cfg it s.finalizationRequired (!s.pending.isEmpty) call rest

/-- The ids of a batch are distinct and not empty. -/
def ValidIds (calls : List ToolCall) : Prop :=
  (calls.map ToolCall.id).Nodup ∧ "" ∉ calls.map ToolCall.id

/-- A batch of which `waiting` is still without results. -/
def OpenBatch (waiting : List ToolCall) : List Message → Prop
  | [] => False
  | message :: results =>
      message.isCallBatch = true ∧ message.callIds.Nodup ∧ "" ∉ message.callIds ∧
        (∀ r ∈ results, r.role = .tool) ∧
        message.callIds = results.map Message.toolCallId ++ waiting.map ToolCall.id

theorem OpenBatch.isBlock {waiting : List ToolCall} {batch : List Message}
    (h : OpenBatch waiting batch) : IsBlock batch := by
  cases batch with
  | nil => exact h
  | cons message results =>
      obtain ⟨hbatch, -, -, htool, hids⟩ := h
      refine ⟨?_, fun r hr => ⟨htool r hr, ?_⟩⟩
      · intro hrole
        simp [Message.isCallBatch, hrole] at hbatch
      · rw [hids]
        exact List.mem_append_left _ (List.mem_map_of_mem hr)

theorem OpenBatch.complete {batch : List Message} (h : OpenBatch [] batch) : Complete batch := by
  cases batch with
  | nil => exact h
  | cons message results =>
      have hisBlock := h.isBlock
      obtain ⟨-, hnodup, hne, htool, hids⟩ := h
      refine ⟨hisBlock.1, hnodup, hne, htool, ?_⟩
      rw [hids, List.map_nil, List.append_nil]

/-- One result shortens what waits. -/
theorem OpenBatch.answer {call : ToolCall} {waiting : List ToolCall} {batch : List Message}
    {result : Message} (h : OpenBatch (call :: waiting) batch) (hrole : result.role = .tool)
    (hid : result.toolCallId = call.id) : OpenBatch waiting (batch ++ [result]) := by
  cases batch with
  | nil => exact h.elim
  | cons message results =>
      obtain ⟨hbatch, hnodup, hne, htool, hids⟩ := h
      refine ⟨hbatch, hnodup, hne, ?_, ?_⟩
      · intro r hr
        rcases List.mem_append.mp hr with hr | hr
        · exact htool r hr
        · rw [List.mem_singleton.mp hr]
          exact hrole
      · show message.callIds = (results ++ [result]).map Message.toolCallId ++ _
        rw [hids, List.map_append, List.map_cons, List.map_cons, hid]
        simp

/-! ## The transcript between two requests -/

/-- Complete groups, then the calls of an open batch that wait. -/
def Orderly (session : Session) (waiting : List ToolCall) : Prop :=
  ∃ blocks : List (List Message), (∀ b ∈ blocks, Complete b) ∧
    ((waiting = [] ∧ session.Holds blocks) ∨
      ∃ batch, OpenBatch waiting batch ∧ session.Holds (blocks ++ [batch]))

theorem Orderly.complete {session : Session} (h : Orderly session []) :
    ∃ blocks : List (List Message), (∀ b ∈ blocks, Complete b) ∧ session.Holds blocks := by
  obtain ⟨blocks, hcomplete, ⟨-, hholds⟩ | ⟨batch, hbatch, hholds⟩⟩ := h
  · exact ⟨blocks, hcomplete, hholds⟩
  · refine ⟨blocks ++ [batch], ?_, hholds⟩
    intro b hb
    rcases List.mem_append.mp hb with hb | hb
    · exact hcomplete b hb
    · rw [List.mem_singleton.mp hb]
      exact hbatch.complete

/-- A message appended while nothing waits starts a group. -/
theorem Orderly.push {session : Session} (h : Orderly session []) {message : Message}
    (hblock : IsBlock [message]) :
    ∃ blocks : List (List Message), (∀ b ∈ blocks, Complete b) ∧
      (session.append [message]).Holds (blocks ++ [[{ message with ref := session.nextRef }]]) := by
  obtain ⟨blocks, hcomplete, hholds⟩ := h.complete
  refine ⟨blocks, hcomplete, ?_⟩
  have hdrafts : ∀ b ∈ [[message]], IsBlock b := by simpa using hblock
  exact hholds.append hdrafts

theorem Orderly.say {session : Session} (h : Orderly session []) (content : String) :
    Orderly (session.append [userTurn content]) [] := by
  have hblock : IsBlock [userTurn content] :=
    (complete_singleton Role.noConfusion rfl).isBlock
  obtain ⟨blocks, hcomplete, hholds⟩ := h.push hblock
  refine ⟨_, ?_, .inl ⟨rfl, hholds⟩⟩
  intro b hb
  rcases List.mem_append.mp hb with hb | hb
  · exact hcomplete b hb
  · rw [List.mem_singleton.mp hb]
    exact complete_singleton Role.noConfusion rfl

/-- An accepted response opens a batch. -/
theorem Orderly.accept {session : Session} (h : Orderly session []) {call : ToolCall}
    {rest : List ToolCall} (hids : ValidIds (call :: rest)) (text : String) :
    Orderly (session.append [assistantTurn text (call :: rest)]) (call :: rest) := by
  have hblock : IsBlock [assistantTurn text (call :: rest)] :=
    ⟨Role.noConfusion, fun r hr => absurd hr (List.not_mem_nil)⟩
  obtain ⟨blocks, hcomplete, hholds⟩ := h.push hblock
  refine ⟨blocks, hcomplete, .inr ⟨_, ?_, hholds⟩⟩
  exact ⟨rfl, hids.1, hids.2, fun r hr => absurd hr (List.not_mem_nil), rfl⟩

/-- A result for the first waiting call. -/
theorem Orderly.answer {session : Session} {call : ToolCall} {waiting : List ToolCall}
    (h : Orderly session (call :: waiting)) (content : String) :
    Orderly (session.append [toolTurn call.id content]) waiting := by
  obtain ⟨blocks, hcomplete, ⟨hnil, -⟩ | ⟨batch, hbatch, hholds⟩⟩ := h
  · cases hnil
  · have hanswered : OpenBatch waiting
        (batch ++ [{ toolTurn call.id content with ref := session.nextRef }]) :=
      hbatch.answer rfl rfl
    exact ⟨blocks, hcomplete, .inr ⟨_, hanswered, hholds.extend hanswered.isBlock⟩⟩

theorem seedBlocks_complete (ref : Nat) (userMessage : String) :
    ∀ b ∈ seedBlocks ref userMessage, Complete b := by
  intro b hb
  simp only [seedBlocks, initialNativeMessages, alloc, List.map_cons, List.map_nil,
    List.mem_cons, List.not_mem_nil, or_false] at hb
  rcases hb with hb | hb <;> subst hb <;> exact complete_singleton Role.noConfusion rfl

/-- An assembly of complete groups passes the continuity walk, and leaves complete
groups. -/
theorem Orderly.assemble {session : Session} (h : Orderly session []) (c : Compiler)
    (userMessage : String) (layers : Layers) :
    checkFrom 0 [] (c.assemble userMessage session layers).1.messages = [] ∧
      Orderly (c.assemble userMessage session layers).1 [] := by
  obtain ⟨blocks, hcomplete, hholds⟩ := h.complete
  have hsources : ∀ b ∈ session.sources userMessage blocks, Complete b := by
    unfold Session.sources
    split
    · exact seedBlocks_complete _ _
    · exact hcomplete
  have hverbatim : ∀ b ∈ ((c.assemble userMessage session layers).2.raw ++
      (c.assemble userMessage session layers).2.recent).map Group.messages, Complete b := by
    intro b hb
    apply hsources
    apply (hholds.dealt c userMessage layers).subset
    rw [List.map_append]
    exact List.mem_append_left _ hb
  refine ⟨?_, _, hverbatim, .inl ⟨rfl, hholds.assembled c userMessage layers⟩⟩
  obtain ⟨front, pre, back, hgroups, hrole, hcalls, hlist⟩ :=
    hholds.assemble_blocks c userMessage layers
  rw [hgroups] at hverbatim
  rw [hlist]
  apply checkFrom_flatten
  intro b hb
  rcases List.mem_append.mp hb with hb | hb
  · exact hverbatim b (List.mem_append_left _ hb)
  · rcases List.mem_cons.mp hb with hb | hb
    · rw [hb]
      exact complete_singleton (by simp [hrole]) (by simp [Message.isCallBatch, hrole])
    · exact hverbatim b (List.mem_append_right _ hb)

theorem Orderly.assemble_ne_nil {session : Session} (h : Orderly session []) (c : Compiler)
    (userMessage : String) (layers : Layers) :
    (c.assemble userMessage session layers).1.messages ≠ [] := by
  obtain ⟨blocks, -, hholds⟩ := h.complete
  obtain ⟨front, pre, back, -, -, -, hlist⟩ := hholds.assemble_blocks c userMessage layers
  rw [hlist]
  simp

/-- With the user's seed in place the gate has nothing against such an assembly. -/
theorem Orderly.checkNative_assemble {session : Session} (h : Orderly session []) (c : Compiler)
    (userMessage : String) (layers : Layers) {nativeSeedRequired : Bool}
    (hseed : nativeSeedRequired = true →
      userPresent (c.assemble userMessage session layers).1.messages = true) :
    checkNative nativeSeedRequired (c.assemble userMessage session layers).1.messages = [] := by
  have hcontinuous := (h.assemble c userMessage layers).1
  have hne := h.assemble_ne_nil c userMessage layers
  have hseeded : ¬ (nativeSeedRequired &&
      !userPresent (c.assemble userMessage session layers).1.messages) = true := by
    simpa using hseed
  unfold checkNative
  rw [if_neg (by simpa using hne), hcontinuous, if_neg hseeded, List.append_nil]

/-! ## One iteration -/

section Iteration

variable {cfg : LoopConfig} {it : Iteration} {s : LoopState}

theorem say_orderly (h : Orderly s.session []) (hpending : s.pending = []) (content : String) :
    Orderly (s.say content).session (s.say content).pending := by
  show Orderly (s.session.append [userTurn content]) s.pending
  rw [hpending]
  exact h.say content

theorem decisionFeedback_orderly (h : Orderly s.session s.pending) (d : Option Decision) :
    Orderly (decisionFeedback d s).session (decisionFeedback d s).pending ∧
      (decisionFeedback d s).pending = s.pending := by
  have hsay : ∀ content, Orderly
      (if s.pending.isEmpty then s.say content else s).session
      (if s.pending.isEmpty then s.say content else s).pending ∧
        (if s.pending.isEmpty then s.say content else s).pending = s.pending := by
    intro content
    by_cases hpending : s.pending = []
    · rw [hpending] at h
      simp only [hpending, List.isEmpty_nil, if_true]
      exact ⟨say_orderly h hpending content, hpending⟩
    · have hempty : ¬ s.pending.isEmpty = true := by simpa using hpending
      rw [if_neg hempty]
      exact ⟨h, rfl⟩
  cases d with
  | none => exact ⟨h, rfl⟩
  | some decision =>
      cases decision with
      | needEvidence => exact hsay needEvidenceFeedback
      | edit => exact hsay editFeedback

theorem executeTool_orderly {name : String} {call : ToolCall} {d : Option Decision}
    (h : Orderly s.session (call :: s.pending))
    (hrefuse : (s.finalizationRequired && isResearchTool name) = false)
    (hcalm : it.watchdog.suspectedNow = true → s.pending = [])
    (hgo : (executeTool cfg it s name call.id d).2 = none) :
    Orderly (executeTool cfg it s name call.id d).1.session
      (executeTool cfg it s name call.id d).1.pending := by
  have hanswered := h.answer it.toolResult
  unfold executeTool at hgo ⊢
  rw [hrefuse] at hgo ⊢
  simp only [Bool.false_eq_true, if_false] at hgo ⊢
  split at hgo
  · cases hgo
  · rename_i hcancel
    rw [if_neg hcancel]
    have hrecorded : ∀ steps, Orderly
        (recordResult cfg it { s with toolSteps := steps } name call.id).session
        (recordResult cfg it { s with toolSteps := steps } name call.id).pending :=
      fun _ => hanswered
    obtain ⟨hfed, hkept⟩ := decisionFeedback_orderly (hrecorded (s.toolSteps + 1)) d
    have hpending : (recordResult cfg it { s with toolSteps := s.toolSteps + 1 } name
        call.id).pending = s.pending := rfl
    generalize decisionFeedback d _ = fed at hgo hfed hkept ⊢
    split at hgo
    · rename_i hsuspected
      rw [if_pos hsuspected]
      have hnil : fed.pending = [] := by rw [hkept, hpending, hcalm hsuspected]
      rw [hnil] at hfed
      show Orderly (fed.session.append [userTurn recoveryTurnPrompt]) fed.pending
      rw [hnil]
      exact hfed.say recoveryTurnPrompt
    · rename_i hsuspected
      rw [if_neg hsuspected]
      split at hgo
      · cases hgo
      · rename_i hconfirmed
        rw [if_neg hconfirmed]
        cases cfg.researchBudget with
        | none => exact hfed
        | some budget => exact hfed

/-- A call of the open batch. -/
theorem handleCall_queued_orderly {call : ToolCall} (h : Orderly s.session (call :: s.pending))
    (hkeep : abandonsCall cfg it s.finalizationRequired true call s.pending = false)
    (hgo : (handleCall cfg it s true "" call []).2 = none) :
    Orderly (handleCall cfg it s true "" call []).1.session
      (handleCall cfg it s true "" call []).1.pending := by
  unfold handleCall at hgo ⊢
  unfold abandonsCall at hkeep
  cases hparsed : classify cfg it call with
  | recoveryTurn => simp [hparsed] at hkeep
  | stuck => simp [hparsed] at hgo
  | retry notice => exact h.answer _
  | tool name d =>
      simp only [hparsed, Bool.or_eq_false_iff] at hkeep hgo ⊢
      apply executeTool_orderly h hkeep.1 _ hgo
      intro hsuspected
      simpa [hsuspected] using hkeep.2

/-- The first call of a response. -/
theorem handleCall_fresh_orderly {call : ToolCall} {rest : List ToolCall} {text : String}
    (h : Orderly s.session []) (hpending : s.pending = []) (hids : ValidIds (call :: rest))
    (hkeep : abandonsCall cfg it s.finalizationRequired false call rest = false)
    (hgo : (handleCall cfg it s false text call rest).2 = none) :
    Orderly (handleCall cfg it s false text call rest).1.session
      (handleCall cfg it s false text call rest).1.pending := by
  have hsay := say_orderly h hpending
  unfold handleCall at hgo ⊢
  unfold abandonsCall at hkeep
  cases hparsed : classify cfg it call with
  | recoveryTurn => exact hsay recoveryTurnPrompt
  | stuck => simp [hparsed] at hgo
  | retry notice => exact hsay notice
  | tool name d =>
      simp only [hparsed, Bool.or_eq_false_iff, Bool.false_eq_true, if_false] at hkeep hgo ⊢
      refine executeTool_orderly (s := s.accept text call rest) ?_ hkeep.1 ?_ hgo
      · show Orderly (s.session.append [assistantTurn text (call :: rest)])
          (call :: (s.pending ++ rest))
        rw [hpending]
        exact h.accept hids text
      · intro hsuspected
        show s.pending ++ rest = []
        rw [hpending]
        simpa [hsuspected] using hkeep.2

theorem finalAnswer_orderly {text : String} (h : Orderly s.session []) (hpending : s.pending = [])
    (hgo : (finalAnswer cfg it s text).2 = none) :
    Orderly (finalAnswer cfg it s text).1.session (finalAnswer cfg it s text).1.pending := by
  unfold finalAnswer at hgo ⊢
  split at hgo
  · rename_i hevidence
    rw [if_pos hevidence]
    show Orderly s.session s.pending
    rwa [hpending]
  · rename_i hevidence
    rw [if_neg hevidence]
    split at hgo
    · rename_i hverify
      rw [if_pos hverify]
      exact say_orderly h hpending verificationNotice
    · cases hgo

/-- The ids of a response, and of a call recovered from its text, are in order. -/
def ValidResponse (it : Iteration) : Prop :=
  (∀ response ∈ it.response, ValidIds response.toolCalls) ∧
    ∀ call ∈ it.recovered, ValidIds [call]

theorem handleResponse_orderly {response : Response} (h : Orderly s.session [])
    (hpending : s.pending = []) (hresponse : it.response = some response)
    (hvalid : ValidResponse it) (hkeep : abandons cfg s it = false)
    (hgo : (handleResponse cfg it s response).2 = none) :
    Orderly (handleResponse cfg it s response).1.session
      (handleResponse cfg it s response).1.pending := by
  have hsay := say_orderly h hpending
  have hcalls : handledCalls s it =
      if response.toolCalls.isEmpty then it.recovered.toList else response.toolCalls := by
    simp [handledCalls, hpending, hresponse]
  unfold abandons at hkeep
  rw [hcalls, hpending] at hkeep
  unfold handleResponse at hgo ⊢
  cases htools : response.toolCalls with
  | cons call rest =>
      simp only [htools, List.isEmpty_cons, Bool.false_eq_true, if_false] at hkeep hgo ⊢
      have hids := hvalid.1 response hresponse
      rw [htools] at hids
      exact handleCall_fresh_orderly h hpending hids hkeep hgo
  | nil =>
      cases hrecovered : it.recovered with
      | some call =>
          simp only [htools, hrecovered, List.isEmpty_nil, if_true, Option.toList_some]
            at hkeep hgo ⊢
          exact handleCall_fresh_orderly h hpending (hvalid.2 call hrecovered) hkeep hgo
      | none =>
          simp only [htools, hrecovered, List.isEmpty_nil, if_true] at hgo ⊢
          split at hgo
          · rename_i hblank
            rw [if_pos hblank]
            exact hsay _
          · rename_i hblank
            rw [if_neg hblank]
            exact finalAnswer_orderly h hpending hgo

theorem abandons_congr {s' : LoopState} (hpending : s'.pending = s.pending)
    (hfinal : s'.finalizationRequired = s.finalizationRequired) :
    abandons cfg s' it = abandons cfg s it := by
  unfold abandons handledCalls
  rw [hpending, hfinal]

theorem promptDecision_orderly (cfg : LoopConfig) (it : Iteration) (h : Orderly s.session [])
    (hpending : s.pending = []) :
    Orderly (promptDecision cfg it s).session [] ∧ (promptDecision cfg it s).pending = [] ∧
      (promptDecision cfg it s).finalizationRequired = s.finalizationRequired := by
  unfold promptDecision
  split
  · exact ⟨h.say editDecisionPrompt, hpending, rfl⟩
  · exact ⟨h, hpending, rfl⟩

theorem requestModel_orderly (h : Orderly s.session []) (hpending : s.pending = [])
    (hvalid : ValidResponse it) (hkeep : abandons cfg s it = false)
    (hgo : (requestModel cfg it s).outcome = none) :
    Orderly (requestModel cfg it s).state.session (requestModel cfg it s).state.pending := by
  have hassembled := (h.assemble cfg.compiler cfg.userMessage it.layers).2
  unfold requestModel at hgo ⊢
  dsimp only at hgo ⊢
  split at hgo
  · cases hresponse : it.response with
    | none => simp [hresponse] at hgo
    | some response =>
        by_cases hcancel : it.cancelledAfterModel = true
        · simp [hresponse, hcancel] at hgo
        · simp only [hresponse, hcancel, Bool.false_eq_true, if_false] at hgo ⊢
          exact handleResponse_orderly hassembled hpending hresponse hvalid hkeep hgo
  · split at hgo
    · rename_i hretry
      rw [if_pos hretry]
      show Orderly _ s.pending
      rw [hpending]
      exact hassembled
    · cases hgo
  · cases hgo

theorem proceed_orderly (h : Orderly s.session s.pending) (hvalid : ValidResponse it)
    (hkeep : abandons cfg s it = false) (hgo : (proceed cfg it s).outcome = none) :
    Orderly (proceed cfg it s).state.session (proceed cfg it s).state.pending := by
  unfold proceed at hgo ⊢
  cases hpending : s.pending with
  | nil =>
      simp only [hpending] at hgo ⊢
      rw [hpending] at h
      obtain ⟨hsession, hnil, hfinal⟩ := promptDecision_orderly cfg it h hpending
      apply requestModel_orderly hsession hnil hvalid _ hgo
      rw [← hkeep]
      exact abandons_congr (hnil.trans hpending.symm) hfinal
  | cons call rest =>
      simp only [hpending] at hgo ⊢
      rw [hpending] at h
      by_cases hafter : it.cancelledAfterModel = true
      · simp [hafter] at hgo
      · rw [if_neg hafter] at hgo ⊢
        have hcall : abandonsCall cfg it s.finalizationRequired true call rest = false := by
          simpa [abandons, handledCalls, hpending] using hkeep
        exact handleCall_queued_orderly (s := { s with pending := rest }) h hcall hgo

/-- An iteration that abandons no call keeps the transcript in order. -/
theorem iterate_orderly (h : Orderly s.session s.pending) (hvalid : ValidResponse it)
    (hkeep : abandons cfg s it = false) (hgo : (iterate cfg s it).outcome = none) :
    Orderly (iterate cfg s it).state.session (iterate cfg s it).state.pending := by
  rcases iterate_cases cfg s it with ⟨state, outcome, heq, -⟩ | ⟨-, -, -, heq⟩
  · rw [heq] at hgo
    cases hgo
  · rw [heq] at hgo ⊢
    exact proceed_orderly (s := { s with attempts := s.attempts + 1 }) h hvalid hkeep hgo

/-- The list an iteration without queued calls assembles. -/
def assembledList (cfg : LoopConfig) (s : LoopState) (it : Iteration) : List Message :=
  (cfg.compiler.assemble cfg.userMessage (promptDecision cfg it s).session it.layers).1.messages

/-- The iteration comes to its request: nothing is queued, cancelled or used up. -/
def reachesRequest (cfg : LoopConfig) (s : LoopState) (it : Iteration) : Bool :=
  s.pending.isEmpty && !it.cancelledAtTop && (limitReached cfg s).isNone &&
    !it.cancelledBeforeModel

/-- No other validator objects, and the user's seed is there if it is asked for. -/
def Unopposed (cfg : LoopConfig) (s : LoopState) (it : Iteration) : Prop :=
  it.otherFailures = [] ∧
    (cfg.nativeSeedRequired = true → userPresent (assembledList cfg s it) = true)

theorem requestModel_sends {messages : List Message}
    (hlist : (cfg.compiler.assemble cfg.userMessage s.session it.layers).1.messages = messages)
    (hother : it.otherFailures = []) (hcheck : checkNative cfg.nativeSeedRequired messages = []) :
    (requestModel cfg it s).invoked = some messages := by
  have hallow : validate cfg.nativeSeedRequired it.otherFailures messages = .allow := by
    simp [validate, hother, hcheck]
  unfold requestModel
  dsimp only
  rw [hlist, hallow]
  cases it.response with
  | none => rfl
  | some response =>
      show (if it.cancelledAfterModel = true then _ else _ : Step).invoked = _
      split
      · rfl
      · rfl

/-- A request from complete groups reaches the provider. -/
theorem iterate_sends (h : Orderly s.session s.pending) (hreach : reachesRequest cfg s it = true)
    (hunopposed : Unopposed cfg s it) :
    (iterate cfg s it).invoked = some (assembledList cfg s it) := by
  unfold reachesRequest at hreach
  simp only [Bool.and_eq_true, Bool.not_eq_true', List.isEmpty_iff, Option.isNone_iff_eq_none]
    at hreach
  obtain ⟨⟨⟨hpending, htop⟩, hlimit⟩, hbefore⟩ := hreach
  rw [hpending] at h
  have hsession : (promptDecision cfg it { s with attempts := s.attempts + 1 }).session =
      (promptDecision cfg it s).session := by
    unfold promptDecision
    split
    · rfl
    · rfl
  have hcheck : checkNative cfg.nativeSeedRequired (assembledList cfg s it) = [] :=
    (promptDecision_orderly cfg it h hpending).1.checkNative_assemble _ _ _ hunopposed.2
  unfold iterate proceed
  simp only [htop, hlimit, hbefore, hpending, Bool.false_eq_true, if_false]
  apply requestModel_sends _ hunopposed.1 hcheck
  rw [← hpending, hsession]
  rfl

end Iteration

/-! ## Whole runs -/

/-- As long as the loop goes on, its transcript is in order. -/
def RunOrderly (r : LoopRun) : Prop :=
  r.outcome = none → Orderly r.state.session r.state.pending

/-- The provider's ids are in order, and the iteration abandons no call. -/
def Disciplined (cfg : LoopConfig) (r : LoopRun) (it : Iteration) : Prop :=
  r.outcome = none → ValidResponse it ∧ abandons cfg r.state it = false

theorem start_orderly (cfg : LoopConfig) (sourceReads : Nat) :
    RunOrderly (.start cfg sourceReads) := by
  intro _
  refine ⟨seedBlocks 0 cfg.userMessage, ?_, .inl ⟨rfl, Session.start_holds _⟩⟩
  exact seedBlocks_complete 0 cfg.userMessage

theorem agentLoop_step_none {cfg : LoopConfig} {r : LoopRun} (houtcome : r.outcome = none)
    (it : Iteration) :
    (agentLoop cfg).step r it =
      ({ state := (iterate cfg r.state it).state, outcome := (iterate cfg r.state it).outcome },
        (iterate cfg r.state it).invoked) := by
  simp [agentLoop, houtcome]

theorem next_orderly (cfg : LoopConfig) (r : LoopRun) (it : Iteration) (h : RunOrderly r)
    (hdisciplined : Disciplined cfg r it) : RunOrderly ((agentLoop cfg).next r it) := by
  intro hgo
  cases houtcome : r.outcome with
  | some outcome =>
      have hsame : (agentLoop cfg).next r it = r := by
        simp [Machine.next, agentLoop, houtcome]
      rw [hsame, houtcome] at hgo
      cases hgo
  | none =>
      unfold Machine.next at hgo ⊢
      rw [agentLoop_step_none houtcome] at hgo ⊢
      obtain ⟨hvalid, habandons⟩ := hdisciplined houtcome
      exact iterate_orderly (h houtcome) hvalid habandons hgo

/-- As long as no call is abandoned, every list that is assembled answers every call:
the gate finds no continuity fault. -/
theorem assembled_continuous (cfg : LoopConfig) (sourceReads : Nat) (iterations : List Iteration)
    (h : (agentLoop cfg).Along (Disciplined cfg) (.start cfg sourceReads) iterations) :
    (agentLoop cfg).Along (fun r it => r.outcome = none → r.state.pending = [] →
      checkFrom 0 [] (assembledList cfg r.state it) = []) (.start cfg sourceReads) iterations := by
  refine Machine.along_of_along (P := RunOrderly) (next_orderly cfg) ?_
    (start_orderly cfg sourceReads) h
  intro r it horderly _ houtcome hpending
  have hsession := horderly houtcome
  rw [hpending] at hsession
  exact ((promptDecision_orderly cfg it hsession hpending).1.assemble _ _ _).1

/-- In such a run the gate is never in the way: an iteration that comes to its request
sends what it assembled. -/
theorem assembled_sent (cfg : LoopConfig) (sourceReads : Nat) (iterations : List Iteration)
    (h : (agentLoop cfg).Along (Disciplined cfg) (.start cfg sourceReads) iterations) :
    (agentLoop cfg).Along (fun r it => r.outcome = none →
      reachesRequest cfg r.state it = true → Unopposed cfg r.state it →
        (agentLoop cfg).out r it = some (assembledList cfg r.state it))
      (.start cfg sourceReads) iterations := by
  refine Machine.along_of_along (P := RunOrderly) (next_orderly cfg) ?_
    (start_orderly cfg sourceReads) h
  intro r it horderly _ houtcome hreach hunopposed
  unfold Machine.out
  rw [agentLoop_step_none houtcome]
  exact iterate_sends (horderly houtcome) hreach hunopposed

end Native
end CodeCub

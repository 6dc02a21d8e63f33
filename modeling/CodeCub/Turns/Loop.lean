import CodeCub.Turns.Round

/-!
# A whole turn

The loop of `AgentLoop._run_agent_loop` and what follows it: how long it runs, how it ends, and
that every transcript it sends or returns consists of whole exchanges of calls and results.
-/

namespace CodeCub
namespace Turns

open Python Exchanges

namespace Environment

variable {B : Type} (env : Environment)

/-! ## What one iteration changes -/

/-- The part of the state that executing calls leaves alone. -/
def steady (st : LoopState B) : LoopState B :=
  { st with
    messages := []
    toolsUsed := []
    loopFailTool := none
    loopFailStreak := 0
    loopNudges := 0
    prevHadToolCalls := false }

variable {env} {st : LoopState B}

theorem steady_addToolResult {n : Nat} {entry : ToolCall × Nat} :
    steady (env.addToolResult n st entry) = steady st := by
  unfold addToolResult
  dsimp only
  split
  · split <;> rfl
  · rfl

theorem steady_breakLoop : steady (breakLoop st) = steady st := by
  unfold breakLoop
  split <;> rfl

theorem steady_executeCalls {n : Nat} {response : Response} :
    steady (env.executeCalls n response st) = steady st := by
  have hfold : ∀ (entries : List (ToolCall × Nat)) (st : LoopState B),
      steady (entries.foldl (env.addToolResult n) st) = steady st := by
    intro entries
    induction entries with
    | nil => exact fun _ => rfl
    | cons entry rest ih => exact fun st => (ih _).trans steady_addToolResult
  unfold executeCalls
  exact steady_breakLoop.trans (hfold _ _)

/-- The counters that bound the loop. -/
def pace (st : LoopState B) : Nat × Nat × Nat :=
  (st.requests.length, st.iteration, st.compressRetries)

theorem pace_of_steady {st' : LoopState B} (h : steady st = steady st') : pace st = pace st' := by
  have hpace : pace (steady st) = pace (steady st') := congrArg pace h
  exact hpace

theorem pace_receiveText {response : Response} :
    pace (env.receiveText response st).1 = pace st := by
  unfold receiveText
  dsimp only
  split
  · rfl
  · split <;> rfl

/-- An iteration sends one request, and it counts unless it shrank the transcript. -/
theorem pace_round (env : Environment) (st : LoopState B) :
    pace (env.round st).1 = (st.requests.length + 1, st.iteration + 1, st.compressRetries) ∨
    (pace (env.round st).1 = (st.requests.length + 1, st.iteration, st.compressRetries + 1) ∧
      st.compressRetries < maxCompressRetries) := by
  have hsend :
      pace (env.send st) = (st.requests.length + 1, st.iteration + 1, st.compressRetries) :=
    congrArg (·, st.iteration + 1, st.compressRetries) List.length_append
  unfold round receive
  split
  · next hover =>
      refine .inr ⟨?_, ?_⟩
      · unfold pace at hsend ⊢
        injection hsend with hrequests _
        rw [hrequests]
        rfl
      · unfold overflows at hover
        simp only [Bool.and_eq_true, decide_eq_true_eq] at hover
        exact hover.1.2
  · left
    split
    · rw [pace_of_steady steady_executeCalls, hsend]
    · rw [pace_receiveText, hsend]

/-! ## The loop -/

/-- The iterations and the shrinkings that are left. -/
def left (env : Environment) (st : LoopState B) : Nat :=
  (env.maxIterations - st.iteration) + (maxCompressRetries - st.compressRetries)

theorem left_round (hmore : st.iteration < env.maxIterations) :
    env.left (env.round st).1 < env.left st := by
  unfold left
  rcases pace_round env st with hpace | ⟨hpace, hretries⟩
  · unfold pace at hpace
    injection hpace with _ hrest
    injection hrest with hiteration hcompress
    rw [hiteration, hcompress]
    omega
  · unfold pace at hpace
    injection hpace with _ hrest
    injection hrest with hiteration hcompress
    rw [hiteration, hcompress]
    omega

/-- `while iteration < self.max_iterations`. -/
def runLoop (env : Environment) (st : LoopState B) : LoopState B :=
  if _hmore : st.iteration < env.maxIterations then
    if (env.round st).2 then runLoop env (env.round st).1 else (env.round st).1
  else st
termination_by env.left st
decreasing_by exact left_round _hmore

/-- What every iteration that goes on keeps holds until an iteration ends the loop or the
budget is used up. -/
theorem runLoop_ends {P Q : LoopState B → Prop}
    (hgoes : ∀ st, P st → st.iteration < env.maxIterations → (env.round st).2 = true →
      P (env.round st).1)
    (hends : ∀ st, P st → st.iteration < env.maxIterations → (env.round st).2 = false →
      Q (env.round st).1) (h : P st) :
    Q (env.runLoop st) ∨ P (env.runLoop st) ∧ env.maxIterations ≤ (env.runLoop st).iteration := by
  induction st using runLoop.induct env with
  | case1 st hmore hround ih =>
      rw [runLoop, dif_pos hmore, if_pos hround]
      exact ih (hgoes st h hmore hround)
  | case2 st hmore hround =>
      rw [runLoop, dif_pos hmore, if_neg hround]
      exact .inl (hends st h hmore (Bool.eq_false_iff.mpr hround))
  | case3 st hend =>
      rw [runLoop, dif_neg hend]
      exact .inr ⟨h, Nat.le_of_not_lt hend⟩

/-- What every iteration keeps, the loop keeps. -/
theorem runLoop_keeps {P : LoopState B → Prop} (hround : ∀ st, P st → P (env.round st).1)
    (h : P st) : P (env.runLoop st) :=
  (runLoop_ends (fun st hst _ _ => hround st hst) (fun st hst _ _ => hround st hst) h).elim id
    And.left

/-! ## The end of the turn -/

def maxIterSynthesisPrompt : Str :=
  ("You've used up the tool-calling budget for this turn, so no tools are available now. Using " ++
    "only what you've already gathered, give your best final answer: summarize what you " ++
    "accomplished, deliver any partial results, and briefly note what's left undone. Do not ask " ++
    "questions — there is no further turn to answer them. Reply in the same language as the " ++
    "user's request (this instruction is in English, but it is not the conversation " ++
    "language).").toList

def maxIterStaticFallback (n : Nat) : Str :=
  "I reached the maximum number of tool call iterations (".toList ++ (toString n).toList ++
    (") without completing the task. You can try breaking the task into smaller steps.").toList

/-- `_synthesize_final_on_exhaustion`. -/
def synthesizeFinal (env : Environment) : Str :=
  match env.synthesis with
  | none => maxIterStaticFallback env.maxIterations
  | some response =>
      match stripThink response.content with
      | some text => if response.failed then maxIterStaticFallback env.maxIterations else text
      | none => maxIterStaticFallback env.maxIterations

/-- The budget is used up without a final answer. -/
def exhausted (env : Environment) (st : LoopState B) : Bool :=
  st.finalContent.isNone && env.maxIterations ≤ st.iteration

def synthesize (env : Environment) (st : LoopState B) : LoopState B :=
  { st with
    status := .interrupted
    finalContent := some env.synthesizeFinal
    requests := st.requests ++ [st.messages ++ [.user (.text maxIterSynthesisPrompt) false]]
    messages := st.messages ++ [.assistant (some env.synthesizeFinal) [] none [] false] }

/-- The marks of the recovery do not leave the turn. -/
def dropSynthetic (st : LoopState B) : LoopState B :=
  { st with messages := st.messages.filter fun message => !message.isSynthetic }

/-- `_run_agent_loop`: the final content, the tools that were used, the transcript and the
outcome are parts of the last state. -/
def runAgentLoop (env : Environment) (initial : List (Message B)) : LoopState B :=
  let ended := env.runLoop { messages := initial }
  dropSynthetic (if env.exhausted ended then env.synthesize ended else ended)

/-! ## Budgets -/

/-- The loop stays within its budgets. -/
structure Within (env : Environment) (st : LoopState B) : Prop where
  requests : st.requests.length = st.iteration + st.compressRetries
  iteration : st.iteration ≤ env.maxIterations
  compressRetries : st.compressRetries ≤ maxCompressRetries
  nudges : st.postToolNudges ≤ env.limits.postToolEmptyMaxNudges
  prefills : st.prefillRetries ≤ env.limits.thinkingPrefillMaxRetries
  retries : st.emptyRetries ≤ env.limits.emptyContentMaxRetries
  breaks : st.loopNudges ≤ loopBreakMax

theorem within_start (env : Environment) (initial : List (Message B)) :
    env.Within { messages := initial } where
  requests := rfl
  iteration := Nat.zero_le _
  compressRetries := Nat.zero_le _
  nudges := Nat.zero_le _
  prefills := Nat.zero_le _
  retries := Nat.zero_le _
  breaks := Nat.zero_le _

/-- What the budgets say of a recovery. -/
def Allowed (env : Environment) (visible : Option Str) (st : LoopState B) : RecoveryAction → Prop
  | .prefill => st.prefillRetries < env.limits.thinkingPrefillMaxRetries
  | .nudge => st.postToolNudges < env.limits.postToolEmptyMaxNudges
  | .retry => st.emptyRetries < env.limits.emptyContentMaxRetries
  | .complete => visible = none → env.limits.enabled = true →
      env.limits.emptyContentMaxRetries ≤ st.emptyRetries

/-- Each recovery is within its own budget, and an empty answer completes the turn only when the
plain retries are used up. -/
theorem allowed_classify (env : Environment) (response : Response) (visible : Option Str)
    (st : LoopState B) :
    env.Allowed visible st (env.classifyEmptyResponse response visible st) := by
  unfold classifyEmptyResponse
  dsimp only
  split
  · next hdone =>
      intro hvisible henabled
      rw [hvisible, henabled] at hdone
      exact hdone.elim (absurd rfl) (fun hfalse => absurd hfalse.symm Bool.false_ne_true)
  split
  · next hprefill => exact hprefill.2
  next hprefill =>
  split
  · next hnudge => exact hnudge.2.2
  split
  · next hretry => exact hretry.1
  next hretry =>
  intro _ _
  by_contra hfew
  apply hretry
  refine ⟨Nat.lt_of_not_le hfew, ?_⟩
  cases hthinking : env.hasThinking response with
  | false => exact .inl rfl
  | true =>
      -- a model that only ever thinks may retry as soon as its prefills are used up
      have hspent : env.limits.thinkingPrefillMaxRetries ≤ st.prefillRetries := by
        by_contra hleft
        exact hprefill ⟨hthinking, Nat.lt_of_not_le hleft⟩
      exact .inr (decide_eq_true hspent)

theorem loopNudges_executeCalls {n : Nat} {response : Response} (h : st.loopNudges ≤ loopBreakMax) :
    (env.executeCalls n response st).loopNudges ≤ loopBreakMax := by
  have hfold : ∀ (entries : List (ToolCall × Nat)) (st : LoopState B),
      (entries.foldl (env.addToolResult n) st).loopNudges = st.loopNudges := by
    intro entries
    induction entries with
    | nil => exact fun _ => rfl
    | cons entry rest ih =>
        intro st
        rw [List.foldl_cons, ih]
        unfold addToolResult
        dsimp only
        split
        · split <;> rfl
        · rfl
  unfold executeCalls breakLoop
  dsimp only
  split
  · next hbreak => exact hbreak.2.1
  · rw [hfold]
    exact h

theorem Within.send (h : env.Within st) (hmore : st.iteration < env.maxIterations) :
    env.Within (env.send st) where
  requests := by
    have hrequests := h.requests
    show (st.requests ++ [_]).length = st.iteration + 1 + st.compressRetries
    rw [List.length_append, List.length_singleton]
    omega
  iteration := hmore
  compressRetries := h.compressRetries
  nudges := h.nudges
  prefills := h.prefills
  retries := h.retries
  breaks := h.breaks

/-- The fields that executing calls leaves alone. -/
theorem fields_of_steady {st' : LoopState B} (h : steady st' = steady st) :
    st'.requests = st.requests ∧ st'.iteration = st.iteration ∧
      st'.compressRetries = st.compressRetries ∧ st'.postToolNudges = st.postToolNudges ∧
      st'.prefillRetries = st.prefillRetries ∧ st'.emptyRetries = st.emptyRetries ∧
      st'.status = st.status ∧ st'.finalContent = st.finalContent ∧
      st'.errorCategory = st.errorCategory := by
  unfold steady at h
  simp only [LoopState.mk.injEq, true_and] at h
  grind

theorem Within.executeCalls {n : Nat} {response : Response} (h : env.Within st) :
    env.Within (env.executeCalls n response st) := by
  have hsteady : steady (env.executeCalls n response st) = steady st := steady_executeCalls
  obtain ⟨hrequests, hiteration, hcompress, hnudges, hprefills, hretries, _⟩ :=
    fields_of_steady hsteady
  constructor
  · rw [hrequests, hiteration, hcompress]
    exact h.requests
  · rw [hiteration]
    exact h.iteration
  · rw [hcompress]
    exact h.compressRetries
  · rw [hnudges]
    exact h.nudges
  · rw [hprefills]
    exact h.prefills
  · rw [hretries]
    exact h.retries
  · exact loopNudges_executeCalls h.breaks

/-! ## How a turn ends -/

/-- The loop goes on. -/
structure Going (env : Environment) (st : LoopState B) : Prop extends env.Within st where
  status : st.status = .completed
  finalContent : st.finalContent = none
  errorCategory : st.errorCategory = none

/-- The last answer failed, and its error is the final content. -/
structure Failed (env : Environment) (st : LoopState B) : Prop where
  status : st.status = .error
  answer : ∃ n, st.requests.length = n + 1 ∧ (env.respond n).failed = true
  finalContent : st.finalContent.isSome = true
  errorCategory : st.errorCategory.isSome = true

/-- The last answer has no calls, and what is visible of it is the final content.  Nothing is
visible only when the recovery is off or its retries are used up. -/
structure Completed (env : Environment) (st : LoopState B) : Prop where
  status : st.status = .completed
  answer : ∃ n, st.requests.length = n + 1 ∧ (env.respond n).failed = false ∧
    (env.respond n).toolCalls = [] ∧ st.finalContent = stripThink (env.respond n).content
  visible : st.finalContent = none →
    env.limits.enabled = false ∨ st.emptyRetries = env.limits.emptyContentMaxRetries

/-- The iterations are used up without a final content, and a last request asks for one. -/
structure Interrupted (env : Environment) (st : LoopState B) : Prop where
  status : st.status = .interrupted
  iteration : st.iteration = env.maxIterations
  finalContent : st.finalContent = some env.synthesizeFinal

/-- An answer has ended the loop. -/
def Over (env : Environment) (st : LoopState B) : Prop :=
  env.Within st ∧ (env.Failed st ∨ env.Completed st)

/-- What one step of the loop leads to. -/
def Leads (env : Environment) (next : LoopState B × Bool) : Prop :=
  if next.2 then env.Going next.1 else env.Over next.1

/-- An answer without calls, after its request was sent. -/
theorem leads_receiveText {n : Nat} (hn : st.requests.length = n + 1) (h : env.Going st)
    (hcalls : (env.respond n).toolCalls = []) :
    env.Leads (env.receiveText (env.respond n) st) := by
  unfold receiveText Leads
  dsimp only
  split
  · next hfailed =>
      rw [if_neg Bool.false_ne_true]
      refine ⟨?_, .inl ⟨rfl, ⟨n, hn, hfailed⟩, rfl, rfl⟩⟩
      exact ⟨h.requests, h.iteration, h.compressRetries, h.nudges, h.prefills, h.retries, h.breaks⟩
  next hfailed =>
  have hallowed := allowed_classify env (env.respond n) (stripThink (env.respond n).content) st
  split
  · next haction =>
      rw [haction] at hallowed
      rw [if_pos rfl]
      refine ⟨?_, h.status, h.finalContent, h.errorCategory⟩
      exact ⟨h.requests, h.iteration, h.compressRetries, h.nudges, hallowed, h.retries, h.breaks⟩
  · next haction =>
      rw [haction] at hallowed
      rw [if_pos rfl]
      refine ⟨?_, h.status, h.finalContent, h.errorCategory⟩
      exact ⟨h.requests, h.iteration, h.compressRetries, hallowed, h.prefills, h.retries, h.breaks⟩
  · next haction =>
      rw [haction] at hallowed
      rw [if_pos rfl]
      refine ⟨?_, h.status, h.finalContent, h.errorCategory⟩
      exact ⟨h.requests, h.iteration, h.compressRetries, h.nudges, h.prefills, hallowed, h.breaks⟩
  · next haction =>
      rw [haction] at hallowed
      rw [if_neg Bool.false_ne_true]
      refine ⟨?_, .inr ⟨h.status, ⟨n, hn, Bool.eq_false_iff.mpr hfailed, hcalls, rfl⟩, ?_⟩⟩
      · exact ⟨h.requests, h.iteration, h.compressRetries, h.nudges, h.prefills, h.retries,
          h.breaks⟩
      · intro hnone
        cases henabled : env.limits.enabled with
        | false => exact .inl rfl
        | true => exact .inr (Nat.le_antisymm h.retries (hallowed hnone henabled))

theorem Going.send (h : env.Going st) (hmore : st.iteration < env.maxIterations) :
    env.Going (env.send st) where
  toWithin := h.toWithin.send hmore
  status := h.status
  finalContent := h.finalContent
  errorCategory := h.errorCategory

theorem Going.executeCalls {n : Nat} {response : Response} (h : env.Going st) :
    env.Going (env.executeCalls n response st) := by
  have hsteady : steady (env.executeCalls n response st) = steady st := steady_executeCalls
  obtain ⟨_, _, _, _, _, _, hstatus, hfinal, herror⟩ := fields_of_steady hsteady
  refine ⟨h.toWithin.executeCalls, ?_, ?_, ?_⟩
  · rw [hstatus]
    exact h.status
  · rw [hfinal]
    exact h.finalContent
  · rw [herror]
    exact h.errorCategory

theorem leads_round (h : env.Going st) (hmore : st.iteration < env.maxIterations) :
    env.Leads (env.round st) := by
  have hsent : env.Going (env.send st) := h.send hmore
  have hn : (env.send st).requests.length = st.requests.length + 1 := List.length_append
  unfold round receive
  split
  · next hover =>
      have hcompress : (env.send st).compressRetries < maxCompressRetries := by
        unfold overflows at hover
        simp only [Bool.and_eq_true, decide_eq_true_eq] at hover
        exact hover.1.2
      refine ⟨⟨?_, ?_, hcompress, hsent.nudges, hsent.prefills, hsent.retries, hsent.breaks⟩,
        hsent.status, hsent.finalContent, hsent.errorCategory⟩
      · have hrequests := hsent.requests
        show (env.send st).requests.length = st.iteration + ((env.send st).compressRetries + 1)
        have hiteration : (env.send st).iteration = st.iteration + 1 := rfl
        omega
      · exact h.iteration
  · split
    · exact hsent.executeCalls
    · next hcalls => exact leads_receiveText hn hsent (of_not_not hcalls)

/-- How the turn ends, before the marks are dropped: with the error of the last answer, with what
is visible of it, or with the answer to a last request without tools. -/
def Ended (env : Environment) (st : LoopState B) : Prop :=
  env.Failed st ∨ env.Completed st ∨ env.Interrupted st

theorem Ended.dropSynthetic (h : env.Ended st) : env.Ended (dropSynthetic st) := by
  rcases h with h | h | h
  · exact .inl ⟨h.status, h.answer, h.finalContent, h.errorCategory⟩
  · exact .inr (.inl ⟨h.status, h.answer, h.visible⟩)
  · exact .inr (.inr ⟨h.status, h.iteration, h.finalContent⟩)

theorem interrupted_synthesize (h : env.Within st) (hend : env.exhausted st = true) :
    env.Interrupted (env.synthesize st) := by
  unfold exhausted at hend
  rw [Bool.and_eq_true, decide_eq_true_eq] at hend
  exact ⟨rfl, Nat.le_antisymm h.iteration hend.2, rfl⟩

/-- The state in which the loop stops. -/
theorem runLoop_stops (env : Environment) (initial : List (Message B)) :
    env.Within (env.runLoop { messages := initial }) ∧
      (env.exhausted (env.runLoop { messages := initial }) = false →
        env.Ended (env.runLoop { messages := initial })) := by
  have hstart : env.Going { messages := initial } := ⟨within_start env initial, rfl, rfl, rfl⟩
  have hgoes : ∀ st : LoopState B, env.Going st → st.iteration < env.maxIterations →
      (env.round st).2 = true → env.Going (env.round st).1 := by
    intro st hst hmore hround
    have hleads := leads_round hst hmore
    unfold Leads at hleads
    rwa [if_pos hround] at hleads
  have hends : ∀ st : LoopState B, env.Going st → st.iteration < env.maxIterations →
      (env.round st).2 = false → env.Over (env.round st).1 := by
    intro st hst hmore hround
    have hleads := leads_round hst hmore
    unfold Leads at hleads
    rwa [hround, if_neg Bool.false_ne_true] at hleads
  have hstops := @runLoop_ends B env _ env.Going env.Over hgoes hends hstart
  rcases hstops with ⟨hwithin, hover⟩ | ⟨hgoing, hmax⟩
  · refine ⟨hwithin, fun _ => ?_⟩
    exact hover.elim .inl fun hcompleted => .inr (.inl hcompleted)
  · refine ⟨hgoing.toWithin, fun hnot => ?_⟩
    unfold exhausted at hnot
    rw [hgoing.finalContent, decide_eq_true hmax] at hnot
    cases hnot

end Environment

end Turns
end CodeCub

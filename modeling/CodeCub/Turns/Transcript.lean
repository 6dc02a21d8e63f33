import CodeCub.Turns.Loop

/-!
# The transcript of a turn

Every call that the model makes is answered before the next request, in its own order, also when
answers are recovered from, old results are elided and messages are injected in between.
-/

namespace CodeCub
namespace Turns

open Python Exchanges Environment

variable {B : Type}

/-! ## What stays of a message -/

namespace Message

/-- A message without the body of its result. -/
def skeleton : Message B → Message B
  | tool callId name _ => tool callId name []
  | message => message

theorem event_skeleton (message : Message B) : message.skeleton.event = message.event := by
  cases message <;> rfl

theorem isSynthetic_skeleton (message : Message B) :
    message.skeleton.isSynthetic = message.isSynthetic := by
  cases message <;> rfl

end Message

theorem map_event_skeleton (messages : List (Message B)) :
    (messages.map Message.skeleton).map Message.event = messages.map Message.event := by
  rw [List.map_map]
  exact List.map_congr_left fun message _ => message.event_skeleton

theorem skeleton_elideFirst (n : Nat) (messages : List (Message B)) :
    (elideFirst n messages).1.map Message.skeleton = messages.map Message.skeleton := by
  induction messages generalizing n with
  | nil => cases n <;> rfl
  | cons message rest ih =>
      cases n with
      | zero => rfl
      | succ n =>
          cases message with
          | tool callId name content =>
              rw [elideFirst]
              split
              · rw [List.map_cons, List.map_cons, ih]
              · rw [List.map_cons, List.map_cons, ih]
                rfl
          | system content => exact congrArg (_ :: ·) (ih (n + 1))
          | user content synthetic => exact congrArg (_ :: ·) (ih (n + 1))
          | assistant content calls reasoning thinking synthetic =>
              exact congrArg (_ :: ·) (ih (n + 1))

theorem skeleton_addHint (hint : Str) (messages : List (Message B)) :
    (addHint hint messages).map Message.skeleton = messages.map Message.skeleton := by
  induction messages with
  | nil => rfl
  | cons message rest ih =>
      cases rest with
      | nil => cases message <;> rfl
      | cons next rest =>
          have hcons : addHint hint (message :: next :: rest) =
              message :: addHint hint (next :: rest) := by
            cases message <;> rfl
          rw [hcons, List.map_cons, ih]
          rfl

theorem isSynthetic_of_skeleton {initial front : List (Message B)}
    (hsame : front.map Message.skeleton = initial.map Message.skeleton)
    (hclean : ∀ message ∈ initial, message.isSynthetic = false) :
    ∀ message ∈ front, message.isSynthetic = false := by
  intro message hmem
  have hskeleton : message.skeleton ∈ initial.map Message.skeleton := by
    rw [← hsame]
    exact List.mem_map_of_mem hmem
  obtain ⟨other, hother, heq⟩ := List.mem_map.mp hskeleton
  rw [← message.isSynthetic_skeleton, ← heq, other.isSynthetic_skeleton]
  exact hclean other hother

/-! ## What every transcript of the turn keeps -/

/-- The transcript goes on from the first one with whole exchanges, and a mark is on no message
that asks or answers. -/
structure Fits (initial messages : List (Message B)) : Prop where
  whole : Whole (messages.map Message.event)
  marks : ∀ message ∈ messages, message.isSynthetic = true → message.event = .asks []
  starts : initial.map Message.skeleton <+: messages.map Message.skeleton

namespace Fits

variable {initial messages more : List (Message B)}

theorem of_skeleton (h : Fits initial messages)
    (heq : more.map Message.skeleton = messages.map Message.skeleton) : Fits initial more where
  whole := by
    rw [← map_event_skeleton, heq, map_event_skeleton]
    exact h.whole
  marks := by
    intro message hmem hmark
    have hskeleton : message.skeleton ∈ messages.map Message.skeleton := by
      rw [← heq]
      exact List.mem_map_of_mem hmem
    obtain ⟨other, hother, hsame⟩ := List.mem_map.mp hskeleton
    have hevent : other.event = .asks [] := by
      apply h.marks other hother
      rw [← other.isSynthetic_skeleton, hsame, message.isSynthetic_skeleton]
      exact hmark
    rw [← message.event_skeleton, ← hsame, other.event_skeleton]
    exact hevent
  starts := by
    rw [heq]
    exact h.starts

theorem append (h : Fits initial messages) (hwhole : Whole (more.map Message.event))
    (hmarks : ∀ message ∈ more, message.isSynthetic = true → message.event = .asks []) :
    Fits initial (messages ++ more) where
  whole := by
    rw [List.map_append]
    exact h.whole.append hwhole
  marks := fun message hmem =>
    (List.mem_append.mp hmem).elim (h.marks message) (hmarks message)
  starts := by
    rw [List.map_append]
    exact h.starts.trans (List.prefix_append _ _)

/-- Messages that ask nothing and answer nothing may be added with or without a mark. -/
theorem append_silent (h : Fits initial messages)
    (hsilent : ∀ message ∈ more, message.event = .asks []) : Fits initial (messages ++ more) := by
  refine h.append ?_ fun message hmem _ => hsilent message hmem
  induction more with
  | nil => exact whole_nil
  | cons message rest ih =>
      have hrest : Whole (rest.map Message.event) :=
        ih fun other hother => hsilent other (List.mem_cons_of_mem _ hother)
      rw [List.map_cons, hsilent message List.mem_cons_self]
      exact hrest

/-- What is left when the marked messages are dropped. -/
theorem dropMarks (h : Fits initial messages)
    (hclean : ∀ message ∈ initial, message.isSynthetic = false) :
    Fits initial (messages.filter fun message => !message.isSynthetic) where
  whole := by
    refine h.whole.filter fun message hmem hdropped => h.marks message hmem ?_
    rw [Bool.not_eq_false'] at hdropped
    exact hdropped
  marks := fun message hmem => h.marks message (List.mem_of_mem_filter hmem)
  starts := by
    obtain ⟨later, hlater⟩ := h.starts
    obtain ⟨front, back, rfl, hfront, _⟩ := List.map_eq_append_iff.mp hlater.symm
    have hkept : front.filter (fun message => !message.isSynthetic) = front := by
      rw [List.filter_eq_self]
      intro message hmem
      rw [isSynthetic_of_skeleton hfront hclean message hmem]
      rfl
    rw [List.filter_append, hkept, List.map_append, hfront]
    exact List.prefix_append _ _

end Fits

/-! ## The steps keep it -/

namespace Environment

variable {env : Environment} {initial : List (Message B)} {st : LoopState B}

/-- The message that the result of a call becomes. -/
def resultMessage (env : Environment) (n : Nat) (entry : ToolCall × Nat) : Message B :=
  .tool entry.1.id entry.1.name
    (wrapUntrusted (env.nonce n entry.2) entry.1.name (env.result n entry.2).text)

theorem messages_addToolResult (n : Nat) (entry : ToolCall × Nat) :
    (env.addToolResult n st entry).messages = st.messages ++ [env.resultMessage n entry] := by
  unfold addToolResult
  dsimp only
  split
  · split <;> rfl
  · rfl

theorem messages_foldl (n : Nat) (entries : List (ToolCall × Nat)) (st : LoopState B) :
    (entries.foldl (env.addToolResult n) st).messages =
      st.messages ++ entries.map (env.resultMessage n) := by
  induction entries generalizing st with
  | nil => exact (List.append_nil _).symm
  | cons entry rest ih =>
      rw [List.foldl_cons, ih, messages_addToolResult, List.append_assoc]
      rfl

theorem skeleton_breakLoop :
    (breakLoop st).messages.map Message.skeleton = st.messages.map Message.skeleton := by
  unfold breakLoop
  split
  · exact skeleton_addHint _ _
  · rfl

theorem event_results (n : Nat) (calls : List ToolCall) :
    (calls.zipIdx.map (env.resultMessage n : _ → Message B)).map Message.event =
      (calls.map ToolCall.id).map Exchanges.Event.answers := by
  have hfst : calls.zipIdx.map Prod.fst = calls := List.zipIdx_map_fst 0 calls
  rw [List.map_map]
  conv_rhs => rw [← hfst, List.map_map, List.map_map]
  rfl

/-- An answer with calls and the results of all of them. -/
theorem fits_executeCalls {n : Nat} {response : Response} (h : Fits initial st.messages) :
    Fits initial (env.executeCalls n response st).messages := by
  refine Fits.of_skeleton ?_ skeleton_breakLoop
  rw [messages_foldl, List.append_assoc]
  refine h.append ?_ ?_
  · rw [List.singleton_append, List.map_cons, event_results]
    exact whole_exchange _
  · intro message hmem hmark
    rw [List.singleton_append, List.mem_cons] at hmem
    rcases hmem with rfl | hmem
    · cases hmark
    · obtain ⟨entry, _, rfl⟩ := List.mem_map.mp hmem
      cases hmark

theorem fits_receiveText {response : Response} (h : Fits initial st.messages) :
    Fits initial (env.receiveText response st).1.messages := by
  unfold receiveText
  dsimp only
  split
  · exact h
  · split
    · exact h.append_silent fun message hmem => by rw [List.mem_singleton.mp hmem]; rfl
    · refine h.append_silent fun message hmem => ?_
      rcases List.mem_cons.mp hmem with rfl | hmem
      · rfl
      · rw [List.mem_singleton.mp hmem]
        rfl
    · exact h
    · exact h.append_silent fun message hmem => by rw [List.mem_singleton.mp hmem]; rfl

theorem fits_send (h : Fits initial st.messages) : Fits initial (env.send st).messages := by
  refine h.append_silent fun message hmem => ?_
  obtain ⟨injection, _, hmessage⟩ := List.mem_filterMap.mp hmem
  unfold Injection.message at hmessage
  split at hmessage
  · cases hmessage
  · injection hmessage with hmessage
    rw [← hmessage]
    rfl

theorem fits_receive {n : Nat} {response : Response} (h : Fits initial st.messages) :
    Fits initial (env.receive n response st).1.messages := by
  unfold receive
  split
  · exact h.of_skeleton (skeleton_elideFirst _ _)
  · split
    · exact fits_executeCalls h
    · exact fits_receiveText h

theorem requests_receive (n : Nat) (response : Response) :
    (env.receive n response st).1.requests = st.requests := by
  unfold receive
  split
  · rfl
  · split
    · exact (fields_of_steady steady_executeCalls).1
    · unfold receiveText
      dsimp only
      split
      · rfl
      · split <;> rfl

/-- The transcript fits, and so did every one that was sent. -/
structure Sound (initial : List (Message B)) (st : LoopState B) : Prop where
  messages : Fits initial st.messages
  requests : ∀ request ∈ st.requests, Fits initial request

theorem sound_round (env : Environment) (h : Sound initial st) :
    Sound initial (env.round st).1 where
  messages := fits_receive (fits_send h.messages)
  requests := by
    intro request hmem
    unfold round at hmem
    rw [requests_receive] at hmem
    rcases List.mem_append.mp hmem with hmem | hmem
    · exact h.requests request hmem
    · rw [List.mem_singleton.mp hmem]
      exact fits_send h.messages

theorem sound_synthesize (env : Environment) (h : Sound initial st) :
    Sound initial (env.synthesize st) where
  messages := h.messages.append_silent fun message hmem => by
    rw [List.mem_singleton.mp hmem]
    rfl
  requests := by
    intro request hmem
    rcases List.mem_append.mp hmem with hmem | hmem
    · exact h.requests request hmem
    · rw [List.mem_singleton.mp hmem]
      refine h.messages.append_silent fun message hlast => ?_
      rw [List.mem_singleton.mp hlast]
      rfl

/-- A turn that starts from whole exchanges sends whole exchanges only and returns whole
exchanges.  The first messages stay where they are, with the bodies of results aside, and nothing
that the recovery added is returned. -/
theorem runAgentLoop_whole (env : Environment) (initial : List (Message B))
    (hwhole : Whole (initial.map Message.event))
    (hclean : ∀ message ∈ initial, message.isSynthetic = false) :
    (∀ request ∈ (env.runAgentLoop initial).requests, Fits initial request) ∧
      Fits initial (env.runAgentLoop initial).messages ∧
      ∀ message ∈ (env.runAgentLoop initial).messages, message.isSynthetic = false := by
  have hstart : Sound initial { messages := initial } := by
    refine ⟨⟨hwhole, fun message hmem hmark => ?_, List.prefix_refl _⟩, fun request hmem => ?_⟩
    · rw [hclean message hmem] at hmark
      cases hmark
    · cases hmem
  have hrun : Sound initial (env.runLoop { messages := initial }) :=
    runLoop_keeps (fun st hst => sound_round env hst) hstart
  have hended : Sound initial (if env.exhausted (env.runLoop { messages := initial }) = true then
      env.synthesize (env.runLoop { messages := initial })
      else env.runLoop { messages := initial }) := by
    split
    · exact sound_synthesize env hrun
    · exact hrun
  refine ⟨hended.requests, hended.messages.dropMarks hclean, ?_⟩
  intro message hmem
  have hkept := List.of_mem_filter hmem
  rw [Bool.not_eq_true'] at hkept
  exact hkept

/-- A model that calls a tool once and then answers. -/
def oneCall : Environment where
  injected := fun _ => []
  respond := fun
    | 0 => { content := none, toolCalls := [⟨['b'], ['l', 's'], ['x']⟩] }
    | _ => { content := some ['o', 'k'] }
  result := fun _ _ => { text := ['f'] }
  nonce := fun _ _ => ['0']
  synthesis := none
  lower := fun text => text
  inlineThinking := fun _ => false
  classify := fun _ => none
  maxIterations := 5
  limits := {}

/-- A conversation that already holds an exchange. -/
def earlier : List (Message Unit) :=
  [.system (.text ['s']), .user (.text ['u']) false,
    .assistant none [⟨['a'], ['l', 's'], ['x']⟩] none [] false, .tool ['a'] ['l', 's'] ['f']]

theorem runAgentLoop_whole_oneCall :
    (∀ request ∈ (oneCall.runAgentLoop earlier).requests, Fits earlier request) ∧
      Fits earlier (oneCall.runAgentLoop earlier).messages ∧
      ∀ message ∈ (oneCall.runAgentLoop earlier).messages, message.isSynthetic = false := by
  refine runAgentLoop_whole oneCall earlier rfl fun message hmem => ?_
  simp only [earlier, List.mem_cons, List.not_mem_nil, or_false] at hmem
  rcases hmem with rfl | rfl | rfl | rfl <;> rfl

end Environment

end Turns
end CodeCub

import Mathlib.Data.List.Basic
import CodeCub.Python.Str

/-!
# Native transcripts

The messages exchanged with a provider that calls tools natively.  A message is a
Python dictionary that several lists share, so it carries the identity `ref` that
`is` compares.  The compiler cuts a transcript into atomic groups: an assistant
message with its tool calls and the results that answer them.
-/

namespace CodeCub
namespace Native

inductive Role where
  | system
  | user
  | assistant
  | tool
  deriving DecidableEq, Repr

/-- A call inside an assistant message; `arguments` is its JSON text. -/
structure ToolCall where
  id : String
  name : String
  arguments : String
  deriving DecidableEq, Repr

/-- `content` is `none` for the `None` of an assistant turn without text. -/
structure Message where
  ref : Nat
  role : Role
  content : Option String
  toolCalls : List ToolCall := []
  toolCallId : String := ""
  deriving DecidableEq, Repr

namespace Message

def isTool (message : Message) : Bool := message.role == .tool

/-- `role == "assistant" and message.get("tool_calls")`. -/
def isCallBatch (message : Message) : Bool :=
  message.role == .assistant && !message.toolCalls.isEmpty

/-- The call ids that tool results may answer. -/
def callIds (message : Message) : List String :=
  if message.isCallBatch then message.toolCalls.map ToolCall.id else []

theorem isTool_iff {message : Message} : message.isTool = true ↔ message.role = .tool := by
  simp [isTool]

theorem isTool_eq_false {message : Message} (h : message.isCallBatch = true) :
    message.isTool = false := by
  simp only [isCallBatch, Bool.and_eq_true, beq_iff_eq] at h
  simp [isTool, h.1]

theorem callIds_batch {message : Message} (h : message.isCallBatch = true) :
    message.callIds = message.toolCalls.map ToolCall.id := by
  simp [callIds, h]

end Message

/-- Objects created in a row get consecutive identities. -/
def alloc (ref : Nat) : List Message → List Message
  | [] => []
  | message :: rest => { message with ref := ref } :: alloc (ref + 1) rest

/-- Allocate group after group. -/
def allocBlocks (ref : Nat) : List (List Message) → List (List Message)
  | [] => []
  | block :: rest => alloc ref block :: allocBlocks (ref + block.length) rest

def nativeToolsSystemPrompt : String :=
  "You are CodeCub, a local coding agent. Tools are provided " ++
    "through native tool calling. When a tool is required, use the " ++
    "provided native tool-call mechanism. Do not emit XML tool tags " ++
    "or write tool calls as plain text."

def nativeToolsUserPrefix : String :=
  "For file tools, use workspace-relative paths; " ++
    "shell commands already execute at the workspace root."

/-- The text of the turn's first user message. -/
def seedText (userMessage : String) : String :=
  nativeToolsUserPrefix ++ "\n\n" ++ userMessage

/-- The ordered native protocol seed for a turn. -/
def initialNativeMessages (ref : Nat) (userMessage : String) : List Message :=
  alloc ref
    [{ ref := 0, role := .system, content := some nativeToolsSystemPrompt },
     { ref := 0, role := .user, content := some (seedText userMessage) }]

/-- An atomic group, with the position of its message in the transcript and the
score the raw-evidence selection wrote on it. -/
structure Group where
  index : Nat
  message : Message
  results : List Message
  hybridScore : Nat := 0
  deriving DecidableEq, Repr

def Group.messages (group : Group) : List Message := group.message :: group.results

/-- Attach a tool result to the newest group that issued its id; groups stand
newest first.  The source looks at the current assistant group first, which is the
newest group with call ids, and then through `reversed(groups)`. -/
def attach (result : Message) : List Group → Option (List Group)
  | [] => none
  | group :: older =>
      if result.toolCallId ∈ group.message.callIds then
        some ({ group with results := group.results ++ [result] } :: older)
      else
        (attach result older).map (group :: ·)

/-- One message of `_group_native_messages`; an orphan result is a group of its
own. -/
def groupStep (groups : List Group) (index : Nat) (message : Message) : List Group :=
  if message.isTool then
    (attach message groups).getD (⟨index, message, [], 0⟩ :: groups)
  else
    ⟨index, message, [], 0⟩ :: groups

def groupFrom (index : Nat) (groups : List Group) : List Message → List Group
  | [] => groups
  | message :: rest => groupFrom (index + 1) (groupStep groups index message) rest

def groupNativeMessages (messages : List Message) : List Group :=
  (groupFrom 0 [] messages).reverse

/-- A group as it stands in a transcript: a message that is no tool result, then
results that answer calls of this message. -/
def IsBlock : List Message → Prop
  | [] => False
  | message :: results =>
      message.role ≠ .tool ∧ ∀ r ∈ results, r.role = .tool ∧ r.toolCallId ∈ message.callIds

/-! ## Allocation -/

theorem alloc_append (ref : Nat) (a b : List Message) :
    alloc ref (a ++ b) = alloc ref a ++ alloc (ref + a.length) b := by
  induction a generalizing ref with
  | nil => simp [alloc]
  | cons message rest ih =>
      simp only [List.cons_append, alloc, ih, List.length_cons]
      congr 3
      omega

theorem ref_of_mem_alloc {ref : Nat} {messages : List Message} {m : Message}
    (h : m ∈ alloc ref messages) : ref ≤ m.ref ∧ m.ref < ref + messages.length := by
  induction messages generalizing ref with
  | nil => simp [alloc] at h
  | cons message rest ih =>
      simp only [alloc, List.mem_cons] at h
      rcases h with h | h
      · subst h
        simp
      · have := ih h
        simp only [List.length_cons]
        omega

theorem nodup_refs_alloc (ref : Nat) (messages : List Message) :
    ((alloc ref messages).map Message.ref).Nodup := by
  induction messages generalizing ref with
  | nil => simp [alloc]
  | cons message rest ih =>
      simp only [alloc, List.map_cons, List.nodup_cons, List.mem_map, not_exists, not_and]
      refine ⟨?_, ih (ref + 1)⟩
      intro m hm heq
      have := ref_of_mem_alloc hm
      omega

theorem isBlock_alloc {ref : Nat} {block : List Message} (h : IsBlock block) :
    IsBlock (alloc ref block) := by
  cases block with
  | nil => exact h
  | cons message results =>
      refine ⟨h.1, ?_⟩
      have hkeep : ∀ (n : Nat) (l : List Message), (∀ r ∈ l, r.role = .tool ∧
          r.toolCallId ∈ message.callIds) → ∀ r ∈ alloc n l, r.role = .tool ∧
          r.toolCallId ∈ message.callIds := by
        intro n l
        induction l generalizing n with
        | nil => simp [alloc]
        | cons r rest ih =>
            intro hl
            simp only [alloc, List.forall_mem_cons] at hl ⊢
            exact ⟨hl.1, ih (n + 1) hl.2⟩
      exact hkeep (ref + 1) results h.2

theorem flatten_allocBlocks (ref : Nat) (blocks : List (List Message)) :
    (allocBlocks ref blocks).flatten = alloc ref blocks.flatten := by
  induction blocks generalizing ref with
  | nil => rfl
  | cons block rest ih => simp [allocBlocks, ih, alloc_append]

theorem isBlock_allocBlocks {ref : Nat} {blocks : List (List Message)}
    (h : ∀ b ∈ blocks, IsBlock b) : ∀ b ∈ allocBlocks ref blocks, IsBlock b := by
  induction blocks generalizing ref with
  | nil => simp [allocBlocks]
  | cons block rest ih =>
      rw [List.forall_mem_cons] at h
      simp only [allocBlocks, List.forall_mem_cons]
      exact ⟨isBlock_alloc h.1, ih h.2⟩

theorem IsBlock.ne_nil {block : List Message} (h : IsBlock block) : block ≠ [] := by
  intro hnil
  rw [hnil] at h
  exact h

/-- Only a message with calls has results behind it. -/
theorem IsBlock.eq_singleton {message : Message} {results : List Message}
    (h : IsBlock (message :: results)) (hcalls : message.isCallBatch = false) : results = [] := by
  cases results with
  | nil => rfl
  | cons r rest =>
      have hid := (h.2 r (List.mem_cons_self ..)).2
      simp [Message.callIds, hcalls] at hid

/-! ## Grouping -/

theorem groupFrom_results (group : Group) (older : List Group) (results rest : List Message)
    (h : ∀ r ∈ results, r.role = .tool ∧ r.toolCallId ∈ group.message.callIds) (index : Nat) :
    groupFrom index (group :: older) (results ++ rest) =
      groupFrom (index + results.length)
        ({ group with results := group.results ++ results } :: older) rest := by
  induction results generalizing group index with
  | nil => simp
  | cons r tail ih =>
      obtain ⟨hrole, hid⟩ := h r (List.mem_cons_self ..)
      have hstep : groupStep (group :: older) index r =
          { group with results := group.results ++ [r] } :: older := by
        simp [groupStep, Message.isTool, hrole, attach, hid]
      show groupFrom (index + 1) (groupStep (group :: older) index r) (tail ++ rest) = _
      rw [hstep, ih { group with results := group.results ++ [r] }
        (fun x hx => h x (List.mem_cons_of_mem r hx))]
      simp only [List.append_assoc, List.singleton_append, List.length_cons]
      congr 1
      omega

/-- Grouping a row of blocks gives these blocks back. -/
theorem groupFrom_blocks (blocks : List (List Message)) (h : ∀ b ∈ blocks, IsBlock b)
    (index : Nat) (older : List Group) :
    (groupFrom index older blocks.flatten).map Group.messages =
      blocks.reverse ++ older.map Group.messages := by
  induction blocks generalizing index older with
  | nil => simp [groupFrom]
  | cons block rest ih =>
      have hblock := h block (List.mem_cons_self ..)
      cases block with
      | nil => exact hblock.elim
      | cons message results =>
          have hstep : groupStep older index message = ⟨index, message, [], 0⟩ :: older := by
            simp [groupStep, Message.isTool, hblock.1]
          show (groupFrom (index + 1) (groupStep older index message)
            (results ++ rest.flatten)).map Group.messages = _
          rw [hstep, groupFrom_results _ _ _ _ hblock.2,
            ih (fun b hb => h b (List.mem_cons_of_mem _ hb))]
          simp [Group.messages]

theorem groupNativeMessages_blocks (blocks : List (List Message)) (h : ∀ b ∈ blocks, IsBlock b) :
    (groupNativeMessages blocks.flatten).map Group.messages = blocks := by
  rw [groupNativeMessages, List.map_reverse, groupFrom_blocks blocks h]
  simp

theorem mem_attach {result : Message} {groups groups' : List Group}
    (h : attach result groups = some groups') {m : Message}
    (hm : m ∈ groups'.flatMap Group.messages) : m = result ∨ m ∈ groups.flatMap Group.messages := by
  induction groups generalizing groups' with
  | nil => simp [attach] at h
  | cons group older ih =>
      simp only [attach] at h
      split at h
      · cases h
        simp only [List.flatMap_cons, Group.messages, List.mem_append, List.mem_cons,
          List.not_mem_nil, or_false] at hm ⊢
        tauto
      · obtain ⟨older', hattach, rfl⟩ := Option.map_eq_some_iff.mp h
        simp only [List.flatMap_cons, List.mem_append] at hm ⊢
        rcases hm with hm | hm
        · exact .inr (.inl hm)
        · rcases ih hattach hm with hm | hm
          · exact .inl hm
          · exact .inr (.inr hm)

theorem mem_groupStep {groups : List Group} {index : Nat} {message m : Message}
    (hm : m ∈ (groupStep groups index message).flatMap Group.messages) :
    m = message ∨ m ∈ groups.flatMap Group.messages := by
  unfold groupStep at hm
  split at hm
  · cases hattach : attach message groups with
    | none =>
        rw [hattach] at hm
        simpa [Group.messages] using hm
    | some groups' =>
        rw [hattach] at hm
        exact mem_attach hattach hm
  · simpa [Group.messages] using hm

/-- Grouping invents no message. -/
theorem mem_of_mem_groupNativeMessages {messages : List Message} {m : Message}
    (hm : m ∈ (groupNativeMessages messages).flatMap Group.messages) : m ∈ messages := by
  have hfrom : ∀ (messages : List Message) (index : Nat) (groups : List Group),
      m ∈ (groupFrom index groups messages).flatMap Group.messages →
        m ∈ messages ∨ m ∈ groups.flatMap Group.messages := by
    intro messages
    induction messages with
    | nil => exact fun _ _ h => .inr h
    | cons message rest ih =>
        intro index groups h
        rcases ih (index + 1) (groupStep groups index message) h with h | h
        · exact .inl (List.mem_cons_of_mem message h)
        · rcases mem_groupStep h with h | h
          · exact .inl (h ▸ List.mem_cons_self ..)
          · exact .inr h
  have hrev : m ∈ (groupFrom 0 [] messages).flatMap Group.messages := by
    simpa [groupNativeMessages] using hm
  simpa using hfrom messages 0 [] hrev

theorem heads_attach {result : Message} {groups groups' : List Group}
    (h : attach result groups = some groups') :
    groups'.map Group.message = groups.map Group.message := by
  induction groups generalizing groups' with
  | nil => simp [attach] at h
  | cons group older ih =>
      simp only [attach] at h
      split at h
      · cases h
        simp
      · obtain ⟨older', hattach, rfl⟩ := Option.map_eq_some_iff.mp h
        simp [ih hattach]

theorem heads_groupStep (groups : List Group) (index : Nat) (message : Message) :
    (groupStep groups index message).map Group.message = groups.map Group.message ∨
      (groupStep groups index message).map Group.message =
        message :: groups.map Group.message := by
  unfold groupStep
  split
  · cases hattach : attach message groups with
    | none => exact .inr rfl
    | some groups' => exact .inl (heads_attach hattach)
  · exact .inr rfl

theorem head_mem_groupFrom {message : Message} {messages : List Message} {index : Nat}
    {groups : List Group} (h : message ∈ groups.map Group.message) :
    message ∈ (groupFrom index groups messages).map Group.message := by
  induction messages generalizing index groups with
  | nil => exact h
  | cons next rest ih =>
      apply ih
      rcases heads_groupStep groups index next with heq | heq
      · rwa [heq]
      · rw [heq]
        exact List.mem_cons_of_mem next h

/-- A message that is no tool result heads a group of its own. -/
theorem head_mem_groupNativeMessages {message : Message} {messages : List Message}
    (hrole : message.role ≠ .tool) (h : message ∈ messages) :
    message ∈ (groupNativeMessages messages).map Group.message := by
  rw [groupNativeMessages, List.map_reverse, List.mem_reverse]
  obtain ⟨before, after, rfl⟩ := List.append_of_mem h
  have hcut : ∀ (index : Nat) (groups : List Group),
      message ∈ (groupFrom index groups (before ++ message :: after)).map Group.message := by
    induction before with
    | nil =>
        intro index groups
        show message ∈ (groupFrom (index + 1) (groupStep groups index message) after).map _
        apply head_mem_groupFrom
        simp [groupStep, Message.isTool, hrole]
    | cons first rest ih =>
        intro index groups
        exact ih (by simp) (index + 1) (groupStep groups index first)
  exact hcut 0 []

end Native
end CodeCub

import CodeCub.Native.Messages

/-!
# Native continuity

`ContextValidator._check_native` walks a provider-bound list once, with the set of
call ids that still wait for a result, and collects what is wrong.  A list without
a complaint answers every call of every assistant message exactly once before the
conversation goes on.
-/

namespace CodeCub
namespace Native

open Python

/-- An entry of `invalid_reasons`, with the index of its message. -/
inductive InvalidReason where
  | messagesEmpty
  | unresolvedToolCalls (index : Nat)
  | invalidToolCallId (index : Nat)
  | unknownToolCallId (index : Nat)
  | toolResultSequenceInterrupted (index : Nat)
  | pendingToolCallsUnanswered
  | nativeUserSeedMissing
  deriving DecidableEq, Repr

/-- Register the calls of one assistant message; an empty id or one that already
waits is refused. -/
def registerCalls (index : Nat) (pending : List String) :
    List ToolCall → List String × List InvalidReason
  | [] => (pending, [])
  | call :: rest =>
      if call.id = "" ∨ call.id ∈ pending then
        let more := registerCalls index pending rest
        (more.1, .invalidToolCallId index :: more.2)
      else
        registerCalls index (pending ++ [call.id]) rest

def checkFrom (index : Nat) (pending : List String) : List Message → List InvalidReason
  | [] => if pending.isEmpty then [] else [.pendingToolCallsUnanswered]
  | message :: rest =>
      if message.isCallBatch then
        let registered := registerCalls index pending message.toolCalls
        (if pending.isEmpty then [] else [.unresolvedToolCalls index]) ++ registered.2 ++
          checkFrom (index + 1) registered.1 rest
      else if message.isTool then
        if message.toolCallId = "" ∨ message.toolCallId ∉ pending then
          .unknownToolCallId index :: checkFrom (index + 1) pending rest
        else
          checkFrom (index + 1) (pending.erase message.toolCallId) rest
      else
        (if pending.isEmpty then [] else [.toolResultSequenceInterrupted index]) ++
          checkFrom (index + 1) pending rest

def userPresent (messages : List Message) : Bool :=
  messages.any fun message => message.role == .user && strip (message.content.getD "") != ""

def checkNative (nativeSeedRequired : Bool) (messages : List Message) : List InvalidReason :=
  if messages.isEmpty then
    [.messagesEmpty]
  else
    checkFrom 0 [] messages ++
      (if nativeSeedRequired && !userPresent messages then [.nativeUserSeedMissing] else [])

/-- Among the tool messages right behind `message`, each of its calls has exactly one
result. -/
def Answered (message : Message) (after : List Message) : Prop :=
  ∀ call ∈ message.toolCalls,
    (after.takeWhile Message.isTool).countP (fun result => result.toolCallId == call.id) = 1

/-- Every assistant message with tool calls is answered before any user, system or
assistant message. -/
def WellFormed (messages : List Message) : Prop :=
  ∀ before message after, messages = before ++ message :: after →
    message.isCallBatch = true → Answered message after

theorem registerCalls_eq {index : Nat} {pending : List String} {calls : List ToolCall}
    (h : (registerCalls index pending calls).2 = []) :
    (registerCalls index pending calls).1 = pending ++ calls.map ToolCall.id := by
  induction calls generalizing pending with
  | nil => simp [registerCalls]
  | cons call rest ih =>
      unfold registerCalls at h ⊢
      split at h
      · cases h
      · rename_i hfresh
        rw [if_neg hfresh, ih h]
        simp

theorem registerCalls_nodup {index : Nat} {pending : List String} {calls : List ToolCall}
    (h : (registerCalls index pending calls).2 = []) (hpending : pending.Nodup) :
    (pending ++ calls.map ToolCall.id).Nodup := by
  induction calls generalizing pending with
  | nil => simpa using hpending
  | cons call rest ih =>
      unfold registerCalls at h
      split at h
      · cases h
      · rename_i hfresh
        have hnodup : (pending ++ [call.id]).Nodup := by
          rw [← List.concat_eq_append, List.nodup_concat]
          exact ⟨fun hmem => hfresh (.inr hmem), hpending⟩
        have := ih h hnodup
        simpa using this

theorem registerCalls_ne_empty {index : Nat} {pending : List String} {calls : List ToolCall}
    (h : (registerCalls index pending calls).2 = []) : "" ∉ calls.map ToolCall.id := by
  induction calls generalizing pending with
  | nil => exact List.not_mem_nil
  | cons call rest ih =>
      unfold registerCalls at h
      split at h
      · cases h
      · rename_i hfresh
        rw [List.map_cons, List.mem_cons, not_or]
        exact ⟨fun hid => hfresh (.inl hid.symm), ih h⟩

theorem checkFrom_nil {index : Nat} {pending : List String}
    (h : checkFrom index pending [] = []) : pending = [] := by
  by_contra hne
  simp [checkFrom, hne] at h

/-- What the first message of a list without complaints is: a batch whose calls are
registered, a result that is waited for, or a message between two batches. -/
theorem checkFrom_cons {index : Nat} {pending : List String} {first : Message}
    {rest : List Message} (h : checkFrom index pending (first :: rest) = []) :
    (first.isCallBatch = true ∧ pending = [] ∧ (first.toolCalls.map ToolCall.id).Nodup ∧
      "" ∉ first.toolCalls.map ToolCall.id ∧
      checkFrom (index + 1) (first.toolCalls.map ToolCall.id) rest = []) ∨
    (first.isCallBatch = false ∧ first.isTool = true ∧ first.toolCallId ∈ pending ∧
      checkFrom (index + 1) (pending.erase first.toolCallId) rest = []) ∨
    (first.isCallBatch = false ∧ first.isTool = false ∧ pending = [] ∧
      checkFrom (index + 1) [] rest = []) := by
  unfold checkFrom at h
  split at h
  · rename_i hbatch
    rw [List.append_eq_nil_iff, List.append_eq_nil_iff] at h
    obtain ⟨⟨hresolved, hregistered⟩, htail⟩ := h
    have hnil : pending = [] := by
      by_contra hne
      simp [hne] at hresolved
    subst hnil
    have hids := registerCalls_eq hregistered
    have hnodup := registerCalls_nodup hregistered List.nodup_nil
    rw [List.nil_append] at hids hnodup
    rw [hids] at htail
    exact Or.inl ⟨hbatch, rfl, hnodup, registerCalls_ne_empty hregistered, htail⟩
  · rename_i hbatch
    rw [Bool.not_eq_true] at hbatch
    split at h
    · rename_i htool
      split at h
      · cases h
      · rename_i hknown
        rw [not_or, not_not] at hknown
        exact Or.inr (Or.inl ⟨hbatch, htool, hknown.2, h⟩)
    · rename_i htool
      rw [List.append_eq_nil_iff] at h
      have hnil : pending = [] := by
        by_contra hne
        simp [hne] at h
      subst hnil
      exact Or.inr (Or.inr ⟨hbatch, by simpa using htool, rfl, h.2⟩)

theorem answered_of_perm {message : Message} {after : List Message}
    (hnodup : (message.toolCalls.map ToolCall.id).Nodup)
    (hperm : ((after.takeWhile Message.isTool).map Message.toolCallId).Perm
      (message.toolCalls.map ToolCall.id)) : Answered message after := by
  intro call hcall
  have hcount := hperm.count_eq call.id
  rw [List.count_eq_one_of_mem hnodup (List.mem_map_of_mem hcall)] at hcount
  rw [← hcount, List.count, List.countP_map]
  rfl

theorem WellFormed.cons {first : Message} {rest : List Message} (hrest : WellFormed rest)
    (hfirst : first.isCallBatch = true → Answered first rest) : WellFormed (first :: rest) := by
  intro before message after hsplit hbatch
  rcases List.cons_eq_append_iff.mp hsplit with ⟨rfl, htail⟩ | ⟨more, rfl, htail⟩
  · obtain ⟨rfl, rfl⟩ := List.cons.inj htail
    exact hfirst hbatch
  · -- a batch further down is a batch of `rest`
    exact hrest more message after htail hbatch

/-- Without complaints the tool messages at the front answer exactly what waits, and
behind them every batch is answered. -/
theorem checkFrom_sound {index : Nat} {pending : List String} {messages : List Message}
    (h : checkFrom index pending messages = []) :
    ((messages.takeWhile Message.isTool).map Message.toolCallId).Perm pending ∧
      WellFormed messages := by
  induction messages generalizing index pending with
  | nil =>
      rw [checkFrom_nil h]
      refine ⟨.refl _, ?_⟩
      intro before message after hsplit
      simp at hsplit
  | cons first rest ih =>
      rcases checkFrom_cons h with ⟨hbatch, rfl, hnodup, -, htail⟩ |
        ⟨hbatch, htool, hmem, htail⟩ | ⟨hbatch, htool, rfl, htail⟩
      · obtain ⟨hperm, hrest⟩ := ih htail
        refine ⟨?_, hrest.cons fun _ => answered_of_perm hnodup hperm⟩
        rw [List.takeWhile_cons_of_neg (by simp [Message.isTool_eq_false hbatch])]
        exact .refl _
      · obtain ⟨hperm, hrest⟩ := ih htail
        refine ⟨?_, hrest.cons fun hb => by simp [hbatch] at hb⟩
        rw [List.takeWhile_cons_of_pos htool, List.map_cons]
        exact (hperm.cons first.toolCallId).trans (List.perm_cons_erase hmem).symm
      · obtain ⟨-, hrest⟩ := ih htail
        refine ⟨?_, hrest.cons fun hb => by simp [hbatch] at hb⟩
        rw [List.takeWhile_cons_of_neg (by simp [htool])]
        exact .refl _

/-- What the validator accepts is well formed. -/
theorem checkNative_sound {nativeSeedRequired : Bool} {messages : List Message}
    (h : checkNative nativeSeedRequired messages = []) : WellFormed messages := by
  unfold checkNative at h
  split at h
  · cases h
  · exact (checkFrom_sound (List.append_eq_nil_iff.mp h).1).2

/-! ## Complete groups -/

/-- A group all of whose calls are answered, each by one result. -/
def Complete : List Message → Prop
  | [] => False
  | message :: results =>
      message.role ≠ .tool ∧ message.callIds.Nodup ∧ "" ∉ message.callIds ∧
        (∀ r ∈ results, r.role = .tool) ∧
        (results.map Message.toolCallId).Perm message.callIds

theorem Complete.isBlock {block : List Message} (h : Complete block) : IsBlock block := by
  cases block with
  | nil => exact h
  | cons message results =>
      refine ⟨h.1, fun r hr => ⟨h.2.2.2.1 r hr, ?_⟩⟩
      exact h.2.2.2.2.subset (List.mem_map_of_mem hr)

theorem complete_singleton {message : Message} (hrole : message.role ≠ .tool)
    (hcalls : message.isCallBatch = false) : Complete [message] := by
  simp [Complete, hrole, Message.callIds, hcalls]

theorem registerCalls_fresh {index : Nat} {pending : List String} {calls : List ToolCall}
    (hnodup : (pending ++ calls.map ToolCall.id).Nodup) (hne : "" ∉ calls.map ToolCall.id) :
    registerCalls index pending calls = (pending ++ calls.map ToolCall.id, []) := by
  induction calls generalizing pending with
  | nil => simp [registerCalls]
  | cons call rest ih =>
      rw [List.map_cons, List.mem_cons, not_or] at hne
      have hassoc : pending ++ (call :: rest).map ToolCall.id =
          (pending ++ [call.id]) ++ rest.map ToolCall.id := by simp
      have hfresh : call.id ∉ pending := by
        intro hmem
        rw [List.nodup_append] at hnodup
        exact hnodup.2.2 call.id hmem call.id (by simp) rfl
      rw [registerCalls, if_neg (not_or.mpr ⟨fun h => hne.1 h.symm, hfresh⟩), hassoc]
      exact ih (hassoc ▸ hnodup) hne.2

/-- Results that answer exactly what waits are read without a complaint. -/
theorem checkFrom_results {index : Nat} {pending : List String} {results rest : List Message}
    (htool : ∀ r ∈ results, r.role = .tool)
    (hperm : (results.map Message.toolCallId).Perm pending) (hne : "" ∉ pending) :
    checkFrom index pending (results ++ rest) = checkFrom (index + results.length) [] rest := by
  induction results generalizing index pending with
  | nil =>
      rw [List.map_nil] at hperm
      rw [hperm.symm.eq_nil]
      rfl
  | cons r more ih =>
      rw [List.forall_mem_cons] at htool
      rw [List.map_cons] at hperm
      have hmem : r.toolCallId ∈ pending := hperm.subset (List.mem_cons_self ..)
      have hknown : ¬ (r.toolCallId = "" ∨ r.toolCallId ∉ pending) := by
        intro hunknown
        rcases hunknown with h | h
        · exact hne (h ▸ hmem)
        · exact h hmem
      have hbatch : r.isCallBatch = false := by simp [Message.isCallBatch, htool.1]
      have htoolRole : r.isTool = true := Message.isTool_iff.mpr htool.1
      have herase : (more.map Message.toolCallId).Perm (pending.erase r.toolCallId) :=
        (List.perm_cons _).mp (hperm.trans (List.perm_cons_erase hmem))
      rw [List.cons_append, checkFrom, hbatch, htoolRole]
      simp only [Bool.false_eq_true, if_false, if_true, hknown]
      rw [ih htool.2 herase (fun h => hne (List.mem_of_mem_erase h)), List.length_cons]
      congr 1
      omega

theorem checkFrom_complete {index : Nat} {block rest : List Message} (h : Complete block) :
    checkFrom index [] (block ++ rest) = checkFrom (index + block.length) [] rest := by
  cases block with
  | nil => exact h.elim
  | cons message results =>
      obtain ⟨hrole, hnodup, hne, htool, hperm⟩ := h
      have htoolRole : message.isTool = false := by simp [Message.isTool, hrole]
      rw [List.cons_append, checkFrom]
      by_cases hbatch : message.isCallBatch = true
      · rw [Message.callIds_batch hbatch] at hnodup hne hperm
        have hregister : registerCalls index [] message.toolCalls =
            (message.toolCalls.map ToolCall.id, []) := registerCalls_fresh hnodup hne
        rw [if_pos hbatch]
        simp only [hregister, List.isEmpty_nil, if_true, List.nil_append]
        rw [checkFrom_results htool hperm hne, List.length_cons]
        congr 1
        omega
      · rw [Bool.not_eq_true] at hbatch
        have hnil : results = [] := by
          have : message.callIds = [] := by simp [Message.callIds, hbatch]
          rw [this] at hperm
          simpa using hperm.eq_nil
        rw [hbatch, htoolRole, hnil]
        simp

/-- A row of complete groups passes. -/
theorem checkFrom_flatten {blocks : List (List Message)} (h : ∀ b ∈ blocks, Complete b)
    (index : Nat) : checkFrom index [] blocks.flatten = [] := by
  induction blocks generalizing index with
  | nil => rfl
  | cons block rest ih =>
      rw [List.forall_mem_cons] at h
      rw [List.flatten_cons, checkFrom_complete h.1]
      exact ih h.2 _

/-- A list without a complaint is a row of complete groups, behind the results that were
waited for. -/
theorem checkFrom_blocks {index : Nat} {pending : List String} {messages : List Message}
    (h : checkFrom index pending messages = []) :
    ∃ (results : List Message) (blocks : List (List Message)),
      messages = results ++ blocks.flatten ∧
      (∀ r ∈ results, r.role = .tool) ∧ (results.map Message.toolCallId).Perm pending ∧
      ∀ b ∈ blocks, Complete b := by
  induction messages generalizing index pending with
  | nil =>
      rw [checkFrom_nil h]
      exact ⟨[], [], rfl, by simp, .refl _, by simp⟩
  | cons first rest ih =>
      rcases checkFrom_cons h with ⟨hbatch, rfl, hnodup, hne, htail⟩ |
        ⟨-, htool, hmem, htail⟩ | ⟨hbatch, htool, rfl, htail⟩
      · obtain ⟨results, blocks, hrest, htool, hperm, hcomplete⟩ := ih htail
        have hrole : first.role ≠ .tool := by
          simpa [Message.isTool] using Message.isTool_eq_false hbatch
        refine ⟨[], (first :: results) :: blocks, by simp [hrest], by simp, .refl _, ?_⟩
        rw [List.forall_mem_cons]
        rw [← Message.callIds_batch hbatch] at hnodup hne hperm
        exact ⟨⟨hrole, hnodup, hne, htool, hperm⟩, hcomplete⟩
      · obtain ⟨results, blocks, hrest, hresults, hperm, hcomplete⟩ := ih htail
        refine ⟨first :: results, blocks, by simp [hrest], ?_, ?_, hcomplete⟩
        · rw [List.forall_mem_cons]
          exact ⟨Message.isTool_iff.mp htool, hresults⟩
        · rw [List.map_cons]
          exact (hperm.cons _).trans (List.perm_cons_erase hmem).symm
      · obtain ⟨results, blocks, hrest, -, hperm, hcomplete⟩ := ih htail
        have hresults : results = [] := by simpa using hperm.eq_nil
        subst hresults
        have hrole : first.role ≠ .tool := by simpa [Message.isTool] using htool
        refine ⟨[], [first] :: blocks, by simp [hrest], by simp, .refl _, ?_⟩
        rw [List.forall_mem_cons]
        exact ⟨complete_singleton hrole hbatch, hcomplete⟩

end Native
end CodeCub

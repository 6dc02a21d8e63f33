import Mathlib.Data.List.Flatten
import CodeCub.Native.Assembler
import CodeCub.Native.Continuity

/-!
# Compilation keeps calls and results together

A transcript that the validator accepts is a row of complete groups.  Whatever the
budget, the working state and the layers are, a compilation only deals these groups out
and puts its preamble at the front or behind a system message, so that what it returns
is again a row of complete groups.
-/

namespace CodeCub
namespace Native

/-- A transcript as the runtime holds it: one object is one message. -/
structure Transcription where
  messages : List Message
  sameObject : ∀ a ∈ messages, ∀ b ∈ messages, a.ref = b.ref → a = b

/-- The pairing checks of the validator, and call ids that are distinct over the whole
list. -/
def Accepted (messages : List Message) : Prop :=
  checkFrom 0 [] messages = [] ∧ (messages.flatMap Message.callIds).Nodup

/-- The layout of one compilation. -/
def Compiler.compiled (c : Compiler) (state : Hysteresis) (layers : Layers)
    (includeContext : Bool) (ref : Nat) (history : List Message) : Compiler.Layout :=
  (c.compileNative state layers includeContext ref history).layout

/-- A call batch of `compiled` is one of `history`, and the results right behind it are
those it has there. -/
def OwnResults (history compiled : List Message) : Prop :=
  ∀ before message after, compiled = before ++ message :: after → message.isCallBatch = true →
    ∃ before' after', history = before' ++ message :: after' ∧
      after.takeWhile Message.isTool = after'.takeWhile Message.isTool

/-! ## Rows of complete groups -/

section Rows
variable {blocks : List (List Message)}

/-- A message that is no result opens one of the groups. -/
theorem split_blocks (h : ∀ b ∈ blocks, Complete b) {before after : List Message}
    {message : Message} (hsplit : blocks.flatten = before ++ message :: after)
    (hrole : message.isTool = false) :
    ∃ front results back, blocks = front ++ (message :: results) :: back ∧
      after = results ++ back.flatten := by
  induction blocks generalizing before with
  | nil => simp at hsplit
  | cons block rest ih =>
      rw [List.forall_mem_cons] at h
      rw [List.flatten_cons] at hsplit
      cases block with
      | nil => exact h.1.elim
      | cons head results =>
          rcases List.append_eq_append_iff.mp hsplit with
            ⟨more, hbefore, hmore⟩ | ⟨more, hblock, hmore⟩
          · obtain ⟨front, others, back, hrest, hafter⟩ := ih h.2 hmore
            exact ⟨(head :: results) :: front, others, back, by rw [hrest]; rfl, hafter⟩
          · cases more with
            | nil =>
                have hfirst : rest.flatten = [] ++ message :: after := hmore.symm
                obtain ⟨front, others, back, hrest, hafter⟩ := ih h.2 hfirst
                exact ⟨(head :: results) :: front, others, back, by rw [hrest]; rfl, hafter⟩
            | cons first more =>
                obtain ⟨rfl, hafter⟩ := List.cons.inj hmore
                cases before with
                | nil =>
                    obtain ⟨rfl, rfl⟩ := List.cons.inj hblock
                    exact ⟨[], results, rest, rfl, hafter⟩
                | cons first before =>
                    -- inside a group there are results only
                    have hmem : message ∈ results := by
                      rw [(List.cons.inj hblock).2]
                      simp
                    rw [Message.isTool_iff.mpr (h.1.2.2.2.1 message hmem)] at hrole
                    cases hrole

/-- Behind the head of a group stand its results, and then no result. -/
theorem takeWhile_results {message : Message} {results : List Message}
    {back : List (List Message)} (hblock : Complete (message :: results))
    (hback : ∀ b ∈ back, Complete b) :
    (results ++ back.flatten).takeWhile Message.isTool = results := by
  have hresults : ∀ r ∈ results, r.isTool = true := fun r hr =>
    Message.isTool_iff.mpr (hblock.2.2.2.1 r hr)
  rw [List.takeWhile_append_of_pos hresults]
  cases back with
  | nil => simp
  | cons next others =>
      rw [List.forall_mem_cons] at hback
      cases next with
      | nil => exact hback.1.elim
      | cons head more =>
          have hhead : head.isTool = false := by simpa [Message.isTool] using hback.1.1
          simp [hhead]

/-- The call batches of a row of groups are followed by their own results. -/
theorem ownResults_of_subset {others : List (List Message)} (h : ∀ b ∈ blocks, Complete b)
    (hothers : ∀ b ∈ others, Complete b)
    (hsub : ∀ message results, message.isCallBatch = true → message :: results ∈ others →
      message :: results ∈ blocks) : OwnResults blocks.flatten others.flatten := by
  intro before message after hsplit hbatch
  have hrole := Message.isTool_eq_false hbatch
  obtain ⟨front, results, back, rfl, rfl⟩ := split_blocks hothers hsplit hrole
  have hmem := hsub message results hbatch (by simp)
  obtain ⟨front', back', rfl⟩ := List.append_of_mem hmem
  refine ⟨front'.flatten, results ++ back'.flatten, by simp, ?_⟩
  have hblock : Complete (message :: results) := hothers _ (by simp)
  rw [takeWhile_results hblock fun b hb => hothers b (by simp [hb]),
    takeWhile_results hblock fun b hb => h b (by simp [hb])]

end Rows

/-! ## The recent groups -/

namespace Compiler
variable {c : Compiler}

theorem trim_sublist {raw recent raw' recent' : List Group} {group : Group}
    (h : trim raw recent = some (group, raw', recent')) : recent'.Sublist recent := by
  unfold trim at h
  split at h
  · cases h
    exact List.Sublist.refl _
  · split at h
    · cases h
      exact List.eraseIdx_sublist _ _
    · cases h

/-- The recent groups are groups of the transcript in their order. -/
theorem budgeted_recent (layers : Layers) (frame : Frame) (history : List Message) :
    (c.enforceNativeBudget frame (c.startLayout layers frame history)).recent.Sublist
      (groupNativeMessages history) := by
  apply enforceNativeBudget_invariant
    (P := fun layout => layout.recent.Sublist (groupNativeMessages history))
  · intro layout group raw recent h htrim
    exact (trim_sublist htrim).trans h
  · unfold startLayout
    split
    · have hcut := c.partitionNativeGroups_append (groupNativeMessages history)
      show (c.partitionNativeGroups (groupNativeMessages history)).1.Sublist _
      conv_rhs => rw [← hcut]
      exact List.sublist_append_right _ _
    · exact List.Sublist.refl _

end Compiler

/-! ## Compilation -/

section Compilation
variable {c : Compiler} {history : Transcription} {blocks : List (List Message)}

theorem groups_of_blocks (hblocks : history.messages = blocks.flatten)
    (h : ∀ b ∈ blocks, Complete b) :
    (groupNativeMessages history.messages).map Group.messages = blocks := by
  rw [hblocks]
  exact groupNativeMessages_blocks blocks fun b hb => (h b hb).isBlock

/-- What a compilation returns, as a row of groups: the rendered ones, with the preamble
among them unless the transcript goes through as it is. -/
theorem compiled_row (state : Hysteresis) (layers : Layers) (includeContext : Bool)
    (ref : Nat) (hblocks : history.messages = blocks.flatten) (h : ∀ b ∈ blocks, Complete b) :
    ∃ (front back : List (List Message)) (pre : List Message),
      (∀ p ∈ pre, p.role = .system) ∧
      (c.compiled state layers includeContext ref history.messages).messages =
        (front ++ pre.map (fun p => [p]) ++ back).flatten ∧
      front ++ back = ((c.compiled state layers includeContext ref history.messages).raw ++
        (c.compiled state layers includeContext ref history.messages).recent).map
          Group.messages := by
  have hgroups := groups_of_blocks hblocks h
  unfold Compiler.compiled
  rw [Compiler.compileNative_cases]
  split
  · have haccounted := Compiler.budgeted_accounted (c := c) layers
      (c.frameOf layers includeContext ref) history.messages
    have hrendered := Compiler.budgeted_rendered (c := c) layers
      (c.frameOf layers includeContext ref) history.messages rfl
    obtain ⟨front, back, hdealt, hlist⟩ := rendered_blocks hrendered
      (fun group hgroup => by
        have hmem := haccounted.dealt.subset
          (List.mem_map_of_mem (List.mem_append_left _ hgroup))
        rw [hgroups] at hmem
        exact (h _ hmem).isBlock)
      (fun a ha b hb => history.sameObject a (haccounted.verbatim_subset ha) b hb)
    generalize hpreamble : Compiler.preamble _ _ = p at hlist
    refine ⟨front, back, [p], ?_, by rw [hlist]; simp, hdealt.symm⟩
    intro q hq
    rw [List.mem_singleton.mp hq, ← hpreamble]
    rfl
  · refine ⟨[], blocks, [], by simp, ?_, ?_⟩
    · simpa [Compiler.layoutVerbatim] using hblocks
    · simpa [Compiler.layoutVerbatim] using hgroups.symm

/-- Whatever is rendered was dealt out of the transcript's groups. -/
theorem compiled_dealt (state : Hysteresis) (layers : Layers) (includeContext : Bool)
    (ref : Nat) (hblocks : history.messages = blocks.flatten) (h : ∀ b ∈ blocks, Complete b) :
    ∃ older : List (List Message),
      (((c.compiled state layers includeContext ref history.messages).raw ++
        (c.compiled state layers includeContext ref history.messages).recent).map
          Group.messages ++ older).Perm blocks := by
  have hgroups := groups_of_blocks hblocks h
  unfold Compiler.compiled
  rw [Compiler.compileNative_cases]
  split
  · have haccounted := Compiler.budgeted_accounted (c := c) layers
      (c.frameOf layers includeContext ref) history.messages
    have hdealt := haccounted.dealt
    rw [hgroups, List.map_append] at hdealt
    exact ⟨_, hdealt⟩
  · exact ⟨[], by simp [Compiler.layoutVerbatim, hgroups]⟩

theorem recent_sublist (state : Hysteresis) (layers : Layers) (includeContext : Bool)
    (ref : Nat) (messages : List Message) :
    (c.compiled state layers includeContext ref messages).recent.Sublist
      (groupNativeMessages messages) := by
  unfold Compiler.compiled
  rw [Compiler.compileNative_cases]
  split
  · exact Compiler.budgeted_recent layers _ messages
  · exact List.Sublist.refl _

theorem complete_system {message : Message} (h : message.role = .system) : Complete [message] :=
  complete_singleton (by simp [h]) (by simp [Message.isCallBatch, h])

/-- System messages have no call ids. -/
theorem callIds_row {front back : List (List Message)} {pre : List Message}
    (hpre : ∀ p ∈ pre, p.role = .system) :
    (front ++ pre.map (fun p => [p]) ++ back).flatten.flatMap Message.callIds =
      (front ++ back).flatten.flatMap Message.callIds := by
  have hsingle : (pre.map fun p => [p]).flatten = pre := by
    induction pre with
    | nil => rfl
    | cons p rest ih => simpa using ih fun q hq => hpre q (List.mem_cons_of_mem p hq)
  have hnil : pre.flatMap Message.callIds = [] := by
    rw [List.flatMap_eq_nil_iff]
    intro p hp
    simp [Message.callIds, Message.isCallBatch, hpre p hp]
  simp only [List.flatten_append, List.flatMap_append, hsingle, hnil, List.append_nil]

/-- A compilation of an accepted transcript is accepted, its call batches are batches of
the transcript followed by their own results, and the recent groups keep their order. -/
theorem compileNative_keeps_pairing (c : Compiler) (state : Hysteresis) (layers : Layers)
    (includeContext : Bool) (ref : Nat) (history : Transcription)
    (h : Accepted history.messages) :
    Accepted (c.compiled state layers includeContext ref history.messages).messages ∧
      OwnResults history.messages
        (c.compiled state layers includeContext ref history.messages).messages ∧
      (c.compiled state layers includeContext ref history.messages).recent.Sublist
        (groupNativeMessages history.messages) ∧
      ((c.compiled state layers includeContext ref history.messages).recent.flatMap
        Group.messages).Sublist
          (c.compiled state layers includeContext ref history.messages).messages := by
  obtain ⟨hcheck, hids⟩ := h
  obtain ⟨results, blocks, hblocks, -, hperm, hcomplete⟩ := checkFrom_blocks hcheck
  have hnone : results = [] := by simpa using hperm.eq_nil
  subst hnone
  rw [List.nil_append] at hblocks
  obtain ⟨front, back, pre, hpre, hlist, hrow⟩ :=
    compiled_row (c := c) state layers includeContext ref hblocks hcomplete
  obtain ⟨older, hdealt⟩ :=
    compiled_dealt (c := c) state layers includeContext ref hblocks hcomplete
  rw [← hrow] at hdealt
  have hmem : ∀ b ∈ front ++ back, b ∈ blocks := fun b hb =>
    hdealt.subset (List.mem_append_left _ hb)
  have hall : ∀ b ∈ front ++ pre.map (fun p => [p]) ++ back, Complete b := by
    intro b hb
    simp only [List.mem_append, List.mem_map] at hb
    rcases hb with (hb | ⟨p, hp, rfl⟩) | hb
    · exact hcomplete b (hmem b (List.mem_append_left _ hb))
    · exact complete_system (hpre p hp)
    · exact hcomplete b (hmem b (List.mem_append_right _ hb))
  rw [hlist]
  refine ⟨⟨checkFrom_flatten hall 0, ?_⟩, ?_,
    recent_sublist state layers includeContext ref history.messages, ?_⟩
  · rw [callIds_row hpre]
    rw [hblocks] at hids
    have hall_ids := (hdealt.flatten.flatMap_right Message.callIds).nodup_iff.mpr hids
    rw [List.flatten_append, List.flatMap_append] at hall_ids
    exact (List.nodup_append.mp hall_ids).1
  · rw [hblocks]
    refine ownResults_of_subset hcomplete hall ?_
    intro message results hbatch hblock
    simp only [List.mem_append, List.mem_map] at hblock
    rcases hblock with (hblock | ⟨p, hp, hsame⟩) | hblock
    · exact hmem _ (List.mem_append_left _ hblock)
    · obtain ⟨rfl, -⟩ := List.cons.inj hsame
      rw [show p.isCallBatch = false by simp [Message.isCallBatch, hpre p hp]] at hbatch
      cases hbatch
    · exact hmem _ (List.mem_append_right _ hblock)
  · have hrecent : ((c.compiled state layers includeContext ref history.messages).recent.map
        Group.messages).Sublist (front ++ back) := by
      rw [hrow, List.map_append]
      exact List.sublist_append_right _ _
    have hinside : (front ++ back).Sublist (front ++ pre.map (fun p => [p]) ++ back) :=
      (List.sublist_append_left _ _).append (List.Sublist.refl back)
    rw [List.flatMap_def]
    exact (hrecent.trans hinside).flatten

/-- A question, one read, and its result. -/
def oneReadTranscription : Transcription where
  messages :=
    [{ ref := 0, role := .user, content := some "read a.py" },
     { ref := 1, role := .assistant, content := none,
       toolCalls := [{ id := "call-1", name := "read_file", arguments := "" }] },
     { ref := 2, role := .tool, content := some "text", toolCallId := "call-1" }]
  sameObject := by decide

theorem oneReadTranscription_kept :
    Accepted oneReadTranscription.messages ∧
      Accepted (readCompiler.compiled {} { userMessage := "read a.py" } true 3
        oneReadTranscription.messages).messages := by
  have h : Accepted oneReadTranscription.messages := by
    unfold Accepted
    decide
  exact ⟨h, (compileNative_keeps_pairing readCompiler {} { userMessage := "read a.py" } true 3
    oneReadTranscription h).1⟩

end Compilation

end Native
end CodeCub

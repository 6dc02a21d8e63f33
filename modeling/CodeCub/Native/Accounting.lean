import CodeCub.Native.Compiler

/-!
# What one compilation does with the groups

Every group of the transcript ends up in exactly one place: rendered verbatim, as
raw evidence or as a recent group, or handed to the condenser whose summary the
preamble renders.  The layouts before the budget loop have this property and each
round of the loop keeps it.
-/

namespace CodeCub
namespace Native
namespace Compiler

open Python

variable {c : Compiler}

/-! ## The preamble -/

theorem toText_nonblank (state : WorkingState) : strip state.toText ≠ "" := by
  have htitle : strip "Working State:" ≠ "" := by decide
  apply strip_ne_empty_of_contains (contains_intercalate (List.mem_cons_self ..)) htitle

example : WorkingState.toText {} = "Working State:" := by decide +kernel

theorem toText_mem_preambleParts (frame : Frame) (summaries : List String) :
    frame.workingState.toText ∈ preambleParts frame summaries := by
  simp [preambleParts, toText_nonblank]

/-- The working state is never blank, so the preamble is always there. -/
theorem assembleNativeMessages_eq (frame : Frame) (summaries : List String)
    (raw recent : List Group) :
    assembleNativeMessages frame summaries raw recent =
      preamble frame summaries :: (raw ++ recent).flatMap Group.messages := by
  have hparts : (preambleParts frame summaries).isEmpty = false := by
    rw [List.isEmpty_eq_false_iff]
    exact List.ne_nil_of_mem (toText_mem_preambleParts frame summaries)
  simp [assembleNativeMessages, hparts]

/-- The summary of a condensation stands in the preamble that renders it. -/
theorem summary_rendered (frame : Frame) {condensed : List Group} (h : condensed ≠ []) :
    ∃ text, (preamble frame (c.compressOlderGroups condensed frame.workingState)).content =
        some text ∧
      Contains text (c.condenser.condense (condensed.flatMap rawItems) frame.workingState) := by
  have hsummary : c.compressOlderGroups condensed frame.workingState =
      [c.condenser.condense (condensed.flatMap rawItems) frame.workingState] := by
    simp [compressOlderGroups, h]
  refine ⟨_, rfl, ?_⟩
  rw [hsummary]
  apply contains_intercalate
  simp [preambleParts, c.condenser.nonblank]

/-! ## Recent and older -/

theorem absorb_append (used : Nat) (groups : List Group) :
    (c.absorb used groups).1 ++ (c.absorb used groups).2 = groups := by
  induction groups generalizing used with
  | nil => rfl
  | cons group rest ih =>
      unfold absorb
      split
      · simp [ih]
      · rfl

theorem partitionNativeGroups_append (groups : List Group) :
    (c.partitionNativeGroups groups).2 ++ (c.partitionNativeGroups groups).1 = groups := by
  unfold partitionNativeGroups
  dsimp only
  rw [← List.reverse_append, List.append_assoc, absorb_append, List.take_append_drop,
    List.reverse_reverse]

/-! ## Raw evidence -/

theorem reclaim_perm (limit used : Nat) (ds : List Descriptor) :
    ((reclaim limit used ds).1 ++ (reclaim limit used ds).2).Perm ds := by
  induction ds generalizing used with
  | nil => exact .refl _
  | cons d rest ih =>
      unfold reclaim
      split
      · exact (ih _).cons d
      · exact List.perm_middle.trans ((ih _).cons d)

/-- The selection only deals the older groups out, in two hands. -/
theorem selectNativeRawEvidence_perm (older : List Group) (layers : Layers) (baseline : Nat) :
    ((c.selectNativeRawEvidence older layers baseline).1.map Group.messages ++
      (c.selectNativeRawEvidence older layers baseline).2.map Group.messages).Perm
        (older.map Group.messages) := by
  unfold selectNativeRawEvidence
  split
  · dsimp only
    set ds := c.evidenceDescriptors older layers with hds
    set split := reclaim (c.safeRawReclaimLimit baseline) 0
      ((ds.filter (isCandidate ds)).mergeSort reclaimBefore) with hsplit
    have hselected : ((split.1.mergeSort indexBefore).map fun d =>
        { d.entry with hybridScore := d.score }).map Group.messages =
          (split.1.mergeSort indexBefore).map fun d => d.entry.messages := by
      simp [Group.messages, Function.comp_def]
    have hdeal : (split.1 ++ (ds.filter (fun d => !(isCandidate ds d)) ++ split.2)).Perm ds := by
      have hcands : (split.1 ++ split.2).Perm (ds.filter (isCandidate ds)) :=
        (reclaim_perm _ _ _).trans (List.mergeSort_perm _ _)
      have hswap : (split.1 ++ (ds.filter (fun d => !(isCandidate ds d)) ++ split.2)).Perm
          ((split.1 ++ split.2) ++ ds.filter (fun d => !(isCandidate ds d))) := by
        rw [List.append_assoc]
        exact List.perm_append_comm.append_left _
      exact hswap.trans ((hcands.append_right _).trans (List.filter_append_perm _ _))
    have hentries : (ds.map fun d => d.entry.messages) = older.map Group.messages := by
      simp only [hds, evidenceDescriptors, List.map_map]
      rw [← List.zipIdx_map_fst 0 older, List.map_map, List.zipIdx_map_fst]
      rfl
    rw [hselected, List.map_map]
    have hmerged : ((split.1.mergeSort indexBefore).map (fun d => d.entry.messages) ++
        ((ds.filter (fun d => !(isCandidate ds d)) ++ split.2).mergeSort indexBefore).map
          (Group.messages ∘ Descriptor.entry)).Perm (ds.map fun d => d.entry.messages) := by
      have := ((List.mergeSort_perm split.1 indexBefore).append
        (List.mergeSort_perm (ds.filter (fun d => !(isCandidate ds d)) ++ split.2)
          indexBefore)).trans hdeal
      simpa [Function.comp_def] using this.map fun d => d.entry.messages
    rwa [hentries] at hmerged
  · simp

/-! ## The budget loop -/

/-- What every round of the loop keeps, the loop keeps. -/
theorem enforceNativeBudget_invariant {P : Layout → Prop} {frame : Frame}
    (hstep : ∀ layout group raw recent, P layout →
      trim layout.raw layout.recent = some (group, raw, recent) →
        P (c.trimmed frame layout group raw recent))
    {layout : Layout} (h : P layout) : P (c.enforceNativeBudget frame layout) := by
  induction layout using enforceNativeBudget.induct c frame with
  | case1 layout hover htrim =>
      rw [enforceNativeBudget, if_pos hover]
      split
      · exact h
      · rename_i heq
        rw [htrim] at heq
        cases heq
  | case2 layout hover group raw recent htrim hlt ih =>
      rw [enforceNativeBudget, if_pos hover]
      split
      · exact h
      · rename_i heq
        rw [htrim] at heq
        cases heq
        exact ih (hstep layout group raw recent h htrim)
  | case3 layout hfit =>
      rw [enforceNativeBudget, if_neg hfit]
      exact h

/-- The list fits the usable budget, or nothing in it may be trimmed. -/
def fits (c : Compiler) (layout : Layout) : Bool :=
  decide (c.estimateNativeTokens layout.messages ≤ c.budget.usableInputBudget) ||
    (trim layout.raw layout.recent).isNone

theorem enforceNativeBudget_of_fits {frame : Frame} {layout : Layout}
    (h : c.fits layout = true) : c.enforceNativeBudget frame layout = layout := by
  rw [enforceNativeBudget]
  by_cases hover : c.budget.usableInputBudget < c.estimateNativeTokens layout.messages
  · rw [if_pos hover]
    split
    · rfl
    · rename_i heq
      simp [fits, heq] at h
      omega
  · rw [if_neg hover]

theorem enforceNativeBudget_older {frame : Frame} {layout : Layout} (h : layout.older ≠ []) :
    (c.enforceNativeBudget frame layout).older ≠ [] :=
  enforceNativeBudget_invariant (P := fun l => l.older ≠ [])
    (fun layout group _ _ _ _ => List.cons_ne_nil group layout.older) h

theorem older_ne_nil_of_not_fits {frame : Frame} {layout : Layout}
    (h : c.fits layout = false) : (c.enforceNativeBudget frame layout).older ≠ [] := by
  simp only [fits, Bool.or_eq_false_iff, decide_eq_false_iff_not, not_le,
    Option.isNone_eq_false_iff] at h
  rw [enforceNativeBudget, if_pos h.1]
  split
  · rename_i heq
    simp [heq] at h
  · apply enforceNativeBudget_older
    exact List.cons_ne_nil _ _

/-- Nothing is condensed exactly when nothing was older and the list fits. -/
theorem enforceNativeBudget_older_eq_nil {frame : Frame} {layout : Layout} :
    (c.enforceNativeBudget frame layout).older = [] ↔
      layout.older = [] ∧ c.fits layout = true := by
  constructor
  · intro h
    constructor
    · by_contra holder
      exact enforceNativeBudget_older holder h
    · by_contra hfits
      exact older_ne_nil_of_not_fits (Bool.not_eq_true _ ▸ hfits) h
  · intro h
    rw [enforceNativeBudget_of_fits h.2]
    exact h.1

/-! ## The layout before the loop -/

def startLayout (c : Compiler) (layers : Layers) (frame : Frame) (history : List Message) :
    Layout :=
  if c.overHigh history then c.layoutCompressed layers frame history
  else layoutAll frame history

theorem shouldCompress_eq_false {state : Hysteresis} {history : List Message} {fingerprint : String}
    (h : c.overHigh history = false) :
    c.budget.shouldCompress state (c.estimateNativeTokens history) history.length fingerprint =
      false := by
  by_contra hyes
  rw [Bool.not_eq_false] at hyes
  have hover := ContextBudget.overHigh_of_shouldCompress hyes
  rw [overHigh, hover] at h
  cases h

/-- Only a small transcript without the context goes through as it is. -/
theorem compileNative_cases (state : Hysteresis) (layers : Layers) (includeContext : Bool)
    (ref : Nat) (history : List Message) :
    (c.compileNative state layers includeContext ref history).layout =
      if c.overHigh history || includeContext then
        c.enforceNativeBudget (c.frameOf layers includeContext ref)
          (c.startLayout layers (c.frameOf layers includeContext ref) history)
      else layoutVerbatim history := by
  unfold compileNative startLayout
  cases hover : c.overHigh history with
  | true => simp
  | false =>
      simp only [shouldCompress_eq_false hover]
      cases includeContext <;> simp

theorem compileNative_layout (state : Hysteresis) (layers : Layers) (ref : Nat)
    (history : List Message) :
    (c.compileNative state layers true ref history).layout =
      c.enforceNativeBudget (c.frameOf layers true ref)
        (c.startLayout layers (c.frameOf layers true ref) history) := by
  rw [compileNative_cases]
  simp

/-- Every group is in one place, and the rendered summary is the older groups'. -/
structure Accounted (groups : List Group) (layout : Layout) : Prop where
  dealt : ((layout.raw ++ layout.recent ++ layout.older).map Group.messages).Perm
    (groups.map Group.messages)
  condensed : (layout.condensed.map Group.messages).Perm (layout.older.map Group.messages)

theorem startLayout_accounted (layers : Layers) (frame : Frame) (history : List Message) :
    Accounted (groupNativeMessages history) (c.startLayout layers frame history) := by
  unfold startLayout
  split
  · unfold layoutCompressed
    dsimp only
    set parts := c.partitionNativeGroups (groupNativeMessages history) with hparts
    have hcut : parts.2 ++ parts.1 = groupNativeMessages history :=
      partitionNativeGroups_append _
    have hdeal := c.selectNativeRawEvidence_perm parts.2 layers (c.estimateNativeTokens
      (assembleNativeMessages { frame with repoMap := [] }
        (c.compressOlderGroups parts.2 layers.workingState) [] parts.1))
    set evidence := c.selectNativeRawEvidence parts.2 layers (c.estimateNativeTokens
      (assembleNativeMessages { frame with repoMap := [] }
        (c.compressOlderGroups parts.2 layers.workingState) [] parts.1)) with hevidence
    refine ⟨?_, ?_⟩
    · rw [← hcut]
      simp only [List.map_append, List.append_assoc]
      exact ((List.perm_append_comm.append_left _).trans
        (by rw [← List.append_assoc]; exact hdeal.append_right _))
    · by_cases hraw : evidence.1.isEmpty
      · rw [if_pos hraw]
        rw [List.isEmpty_iff] at hraw
        rw [hraw] at hdeal
        exact hdeal.symm
      · rw [if_neg hraw]
  · exact ⟨by simp [layoutAll], by simp [layoutAll]⟩

theorem trimmed_accounted {groups : List Group} {frame : Frame} {layout : Layout} {group : Group}
    {raw recent : List Group} (h : Accounted groups layout)
    (htrim : trim layout.raw layout.recent = some (group, raw, recent)) :
    Accounted groups (c.trimmed frame layout group raw recent) := by
  refine ⟨?_, .refl _⟩
  have hmove : ((raw ++ recent) ++ group :: layout.older).Perm
      ((layout.raw ++ layout.recent) ++ layout.older) :=
    List.perm_middle.trans ((trim_perm htrim).append_right layout.older)
  exact (hmove.map Group.messages).trans h.dealt

theorem budgeted_accounted (layers : Layers) (frame : Frame) (history : List Message) :
    Accounted (groupNativeMessages history)
      (c.enforceNativeBudget frame (c.startLayout layers frame history)) :=
  enforceNativeBudget_invariant (P := Accounted (groupNativeMessages history))
    (fun _ _ _ _ h htrim => trimmed_accounted h htrim) (startLayout_accounted _ _ _)

/-- No compilation drops a group: each is verbatim, or behind the summary. -/
theorem compileNative_accounted (state : Hysteresis) (layers : Layers) (ref : Nat)
    (history : List Message) :
    Accounted (groupNativeMessages history)
      (c.compileNative state layers true ref history).layout := by
  rw [compileNative_layout]
  exact budgeted_accounted layers _ history

/-! ## Order of the messages -/

def Layout.verbatim (layout : Layout) : List Message :=
  (layout.raw ++ layout.recent).flatMap Group.messages

def rendering (c : Compiler) (frame : Frame) (layout : Layout) : List Message :=
  assembleNativeMessages frame (c.compressOlderGroups layout.condensed frame.workingState)
    layout.raw layout.recent

/-- The list is the rendering of the layout, possibly with the seed in front. -/
def Rendered (c : Compiler) (frame : Frame) (history : List Message) (layout : Layout) : Prop :=
  layout.messages = c.rendering frame layout ∨
    layout.messages = seedFirst history (c.rendering frame layout)

theorem budgeted_rendered (layers : Layers) (frame : Frame) (history : List Message)
    (hstate : layers.workingState = frame.workingState) :
    Rendered c frame history
      (c.enforceNativeBudget frame (c.startLayout layers frame history)) := by
  apply enforceNativeBudget_invariant (P := Rendered c frame history)
  · intro layout group raw recent _ _
    exact .inl rfl
  · unfold startLayout
    split
    · refine .inl ?_
      unfold layoutCompressed rendering
      rw [hstate]
    · exact .inr rfl

theorem compileNative_rendered (state : Hysteresis) (layers : Layers) (ref : Nat)
    (history : List Message) :
    Rendered c (c.frameOf layers true ref) history
      (c.compileNative state layers true ref history).layout := by
  rw [compileNative_layout]
  exact budgeted_rendered layers _ history rfl

/-- The preamble opens the list, or follows a system message that the transcript
starts with. -/
theorem Rendered.cases {frame : Frame} {history : List Message} {layout : Layout}
    (h : Rendered c frame history layout) :
    layout.messages = preamble frame (c.compressOlderGroups layout.condensed frame.workingState) ::
        layout.verbatim ∨
      ∃ seed rest second tail, history = seed :: rest ∧ seed.role = .system ∧
        layout.verbatim = second :: tail ∧ second.ref = seed.ref ∧
        layout.messages = second ::
          preamble frame (c.compressOlderGroups layout.condensed frame.workingState) :: tail := by
  unfold Rendered rendering at h
  rw [assembleNativeMessages_eq] at h
  rcases h with h | h
  · exact .inl h
  · change layout.messages = seedFirst history (_ :: layout.verbatim) at h
    unfold seedFirst at h
    split at h
    · rename_i seed rest first second tail heq
      obtain ⟨rfl, hverbatim⟩ := List.cons.inj heq
      by_cases hcond : seed.role = .system ∧ second.ref = seed.ref
      · rw [if_pos hcond] at h
        exact .inr ⟨seed, rest, second, tail, rfl, hcond.1, hverbatim, hcond.2, h⟩
      · rw [if_neg hcond] at h
        exact .inl h
    · exact .inl h

theorem Accounted.verbatim_subset {history : List Message} {layout : Layout}
    (h : Accounted (groupNativeMessages history) layout) {m : Message}
    (hm : m ∈ layout.verbatim) : m ∈ history := by
  apply mem_of_mem_groupNativeMessages
  rw [Layout.verbatim, List.mem_flatMap] at hm
  obtain ⟨group, hgroup, hmem⟩ := hm
  have hblock : group.messages ∈ (groupNativeMessages history).map Group.messages := by
    apply h.dealt.subset
    exact List.mem_map_of_mem (List.mem_append_left _ hgroup)
  obtain ⟨source, hsource, heq⟩ := List.mem_map.mp hblock
  exact List.mem_flatMap.mpr ⟨source, hsource, heq ▸ hmem⟩

theorem Accounted.condensed_subset {history : List Message} {layout : Layout}
    (h : Accounted (groupNativeMessages history) layout) {block : List Message}
    (hblock : block ∈ layout.condensed.map Group.messages) : block ⊆ history := by
  intro m hm
  apply mem_of_mem_groupNativeMessages
  have holder := h.condensed.subset hblock
  have hgroups : block ∈ (groupNativeMessages history).map Group.messages := by
    apply h.dealt.subset
    rw [List.map_append]
    exact List.mem_append_right _ holder
  obtain ⟨source, hsource, heq⟩ := List.mem_map.mp hgroups
  exact List.mem_flatMap.mpr ⟨source, hsource, heq ▸ hm⟩

/-- A compiled list holds the preamble and messages of the transcript. -/
theorem mem_compileNative {state : Hysteresis} {layers : Layers} {ref : Nat}
    {history : List Message} {m : Message}
    (hm : m ∈ (c.compileNative state layers true ref history).layout.messages) :
    m.ref = ref ∨ m ∈ history := by
  have haccounted := c.compileNative_accounted state layers ref history
  rcases (c.compileNative_rendered state layers ref history).cases with h | h
  · rw [h] at hm
    rcases List.mem_cons.mp hm with hm | hm
    · exact .inl (hm ▸ rfl)
    · exact .inr (haccounted.verbatim_subset hm)
  · obtain ⟨seed, rest, second, tail, -, -, hverbatim, -, hlist⟩ := h
    rw [hlist] at hm
    rcases List.mem_cons.mp hm with hm | hm
    · exact .inr (haccounted.verbatim_subset (by rw [hverbatim, hm]; exact List.mem_cons_self ..))
    · rcases List.mem_cons.mp hm with hm | hm
      · exact .inl (hm ▸ rfl)
      · exact .inr (haccounted.verbatim_subset
          (by rw [hverbatim]; exact List.mem_cons_of_mem second hm))

end Compiler
end Native
end CodeCub

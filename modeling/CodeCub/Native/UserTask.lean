import CodeCub.Native.Assembler

/-!
# The user's task under repeated compilation

The compiler leaves the user's task out of the pinned layer, because the native
transcript carries it as its first user message.  The budget loop never trims a
user message from the recent groups, but the partition above the high watermark
cuts the transcript by position alone and hands an early user message to the
condenser.  `task_survives` gives the compilations that keep it.
-/

namespace CodeCub
namespace Native

open Python

/-- Some user message is not blank, and the user's own text occurs in the list. -/
def TaskSurvives (userMessage : String) (messages : List Message) : Prop :=
  (∃ message ∈ messages, message.role = .user ∧ strip (message.content.getD "") ≠ "") ∧
    ∃ message ∈ messages, message.Renders userMessage

/-- The second message of the seed: the user's turn. -/
def taskMessage (userMessage : String) : Message :=
  { ref := 1, role := .user, content := some (seedText userMessage) }

/-- A transcript that is compiled over and over, with the identities used so far. -/
structure Transcript where
  messages : List Message
  nextRef : Nat
  hysteresis : Hysteresis := {}

namespace Transcript

def start (userMessage : String) : Transcript :=
  { messages := initialNativeMessages 0 userMessage, nextRef := 2 }

/-- The list handed to the compiler. -/
def extended (s : Transcript) (turn : Turn) : List Message :=
  s.messages ++ alloc s.nextRef (turn.groups.map Draft.messages).flatten

/-- The identity of the preamble to come. -/
def preambleRef (s : Transcript) (turn : Turn) : Nat :=
  s.nextRef + (turn.groups.map Draft.messages).flatten.length

end Transcript

/-- Append groups and compile, again and again on the compiler's own output. -/
def recompilations (c : Compiler) : Machine Transcript Turn Unit where
  step s turn :=
    let compiled := c.compileNative s.hysteresis turn.layers true (s.preambleRef turn)
      (s.extended turn)
    ({ messages := compiled.layout.messages
       nextRef := s.preambleRef turn + 1
       hysteresis := compiled.hysteresis }, ())

namespace Compiler

variable (c : Compiler)

/-- The groups from the user's task to the end of the transcript. -/
def taskTail (history : List Message) : List Group :=
  (groupNativeMessages history).dropWhile fun group => group.message.ref != 1

/-- The transcript is below the high watermark; or the groups from the task on are
within the floor, or within the recent layer; or the raw evidence selection picks
the task and nothing has to be trimmed. -/
def keepsTask (layers : Layers) (ref : Nat) (history : List Message) : Bool :=
  !c.overHigh history ||
    decide ((taskTail history).length ≤ max 1 c.recentFloorGroups) ||
    decide (((taskTail history).map c.estimateNativeGroupTokens).sum ≤ c.recentBudget) ||
    (let layout := c.layoutCompressed layers (c.frameOf layers true ref) history
     (layout.raw.any fun group => group.message.ref == 1) && c.fits layout)

variable {c}

/-! ## The partition -/

theorem absorb_takes {used : Nat} {groups rest : List Group}
    (h : used + (groups.map c.estimateNativeGroupTokens).sum ≤ c.recentBudget) :
    groups <+: (c.absorb used (groups ++ rest)).1 := by
  induction groups generalizing used with
  | nil => exact List.nil_prefix
  | cons group more ih =>
      simp only [List.map_cons, List.sum_cons] at h
      have hfit : used + c.estimateNativeGroupTokens group ≤ c.recentBudget := by omega
      rw [List.cons_append, absorb, if_pos hfit]
      apply List.cons_prefix_cons.mpr ⟨rfl, ih _⟩
      omega

/-- A tail within the floor or within the recent layer's budget stays recent. -/
theorem mem_recent_of_tail (older : List Group) {tail : List Group}
    (h : tail.length ≤ max 1 c.recentFloorGroups ∨
      (tail.map c.estimateNativeGroupTokens).sum ≤ c.recentBudget) {group : Group}
    (hgroup : group ∈ tail) : group ∈ (c.partitionNativeGroups (older ++ tail)).1 := by
  unfold partitionNativeGroups
  dsimp only
  rw [List.mem_reverse, List.reverse_append]
  set floor := max 1 c.recentFloorGroups with hfloor
  have hmem : group ∈ tail.reverse := List.mem_reverse.mpr hgroup
  by_cases hshort : tail.length ≤ floor
  · apply List.mem_append_left
    rw [List.take_append, List.take_of_length_le (by simpa using hshort)]
    exact List.mem_append_left _ hmem
  · have hsum := h.resolve_left hshort
    have hle : floor ≤ tail.reverse.length := by
      rw [List.length_reverse]
      omega
    rw [List.take_append_of_le_length hle, List.drop_append_of_le_length hle]
    rw [← List.take_append_drop floor tail.reverse, List.mem_append] at hmem
    rcases hmem with hmem | hmem
    · exact List.mem_append_left _ hmem
    · apply List.mem_append_right
      refine (absorb_takes ?_).subset hmem
      rw [← List.sum_append, ← List.map_append, List.take_append_drop, List.map_reverse,
        List.sum_reverse]
      exact hsum

/-! ## The budget loop spares user messages -/

theorem mem_recent_of_trim {raw recent raw' recent' : List Group} {group gone : Group}
    (htrim : trim raw recent = some (gone, raw', recent')) (hrole : group.message.role = .user)
    (hgroup : group ∈ recent) : group ∈ recent' := by
  unfold trim at htrim
  split at htrim
  · cases htrim
    exact hgroup
  · split at htrim
    · rename_i hget
      cases htrim
      obtain ⟨hlt, rfl⟩ := List.getElem?_eq_some_iff.mp hget
      have hgone : removable recent[recent.findIdx removable] = true :=
        List.findIdx_getElem (w := hlt)
      rw [List.mem_eraseIdx_iff_getElem?]
      obtain ⟨i, hi⟩ := List.mem_iff_getElem?.mp hgroup
      refine ⟨i, ?_, hi⟩
      intro hsame
      rw [hsame, List.getElem?_eq_getElem hlt, Option.some_inj] at hi
      rw [hi] at hgone
      simp [removable, hrole] at hgone
    · cases htrim

theorem mem_seedFirst {history messages : List Message} {m : Message} :
    m ∈ seedFirst history messages ↔ m ∈ messages := by
  unfold seedFirst
  split
  · split
    · simp only [List.mem_cons]
      tauto
    · exact Iff.rfl
  · exact Iff.rfl

theorem mem_assembleNativeMessages {frame : Frame} {summaries : List String}
    {raw recent : List Group} {group : Group} (h : group ∈ raw ++ recent) :
    group.message ∈ assembleNativeMessages frame summaries raw recent := by
  rw [assembleNativeMessages_eq]
  apply List.mem_cons_of_mem
  exact List.mem_flatMap.mpr ⟨group, h, List.mem_cons_self ..⟩

/-- A user message among the recent groups is still in the list when the loop ends. -/
theorem user_mem_enforceNativeBudget {frame : Frame} {layout : Layout} {group : Group}
    (hrole : group.message.role = .user) (hmem : group.message ∈ layout.messages)
    (hrecent : group ∈ layout.recent) :
    group.message ∈ (c.enforceNativeBudget frame layout).messages := by
  have hkeep : group.message ∈ (c.enforceNativeBudget frame layout).messages ∧
      group ∈ (c.enforceNativeBudget frame layout).recent := by
    apply enforceNativeBudget_invariant
      (P := fun l => group.message ∈ l.messages ∧ group ∈ l.recent)
    · intro layout gone raw recent h htrim
      have hstay := mem_recent_of_trim htrim hrole h.2
      exact ⟨mem_assembleNativeMessages (List.mem_append_right raw hstay), hstay⟩
    · exact ⟨hmem, hrecent⟩
  exact hkeep.1

/-! ## One compilation -/

theorem task_mem_taskTail {history : List Message} {task : Message} (hrole : task.role = .user)
    (href : task.ref = 1) (hmem : task ∈ history) :
    ∃ group ∈ taskTail history, group.message = task := by
  have hhead : task ∈ (groupNativeMessages history).map Group.message := by
    apply head_mem_groupNativeMessages _ hmem
    rw [hrole]
    decide
  obtain ⟨group, hgroup, rfl⟩ := List.mem_map.mp hhead
  exact ⟨group, mem_dropWhile hgroup (by simp [href]), rfl⟩

theorem task_mem_compileNative {state : Hysteresis} {layers : Layers} {ref : Nat}
    {history : List Message} {task : Message} (hrole : task.role = .user) (href : task.ref = 1)
    (hsame : ∀ m ∈ history, m.ref = 1 → m = task) (hmem : task ∈ history)
    (hkeep : c.keepsTask layers ref history = true) :
    task ∈ (c.compileNative state layers true ref history).layout.messages := by
  rw [compileNative_layout]
  obtain ⟨group, hgroup, hmessage⟩ := task_mem_taskTail hrole href hmem
  have hgroups : group ∈ groupNativeMessages history := (List.dropWhile_sublist _).subset hgroup
  have huser : group.message.role = .user := by rw [hmessage, hrole]
  rw [← hmessage]
  by_cases hover : c.overHigh history = true
  · have hstart : c.startLayout layers (c.frameOf layers true ref) history =
        c.layoutCompressed layers (c.frameOf layers true ref) history := by
      simp [startLayout, hover]
    simp only [keepsTask, hover, Bool.not_true, Bool.false_or, Bool.or_eq_true,
      decide_eq_true_eq, Bool.and_eq_true, List.any_eq_true, beq_iff_eq] at hkeep
    rcases hkeep with htail | ⟨⟨raw, hraw, hone⟩, hfits⟩
    · -- the partition leaves the task among the recent groups
      have hrecent : group ∈ (c.layoutCompressed layers (c.frameOf layers true ref)
          history).recent := by
        have hcut := List.takeWhile_append_dropWhile
          (p := fun group : Group => group.message.ref != 1) (l := groupNativeMessages history)
        have hin := mem_recent_of_tail ((groupNativeMessages history).takeWhile
          fun group => group.message.ref != 1) htail hgroup
        rwa [taskTail, hcut] at hin
      rw [hstart]
      apply user_mem_enforceNativeBudget huser _ hrecent
      exact mem_assembleNativeMessages (List.mem_append_right _ hrecent)
    · -- the raw evidence keeps it, and the loop has nothing to do
      have haccounted := c.startLayout_accounted layers (c.frameOf layers true ref) history
      rw [hstart] at haccounted ⊢
      have hmem : raw.message ∈ (c.layoutCompressed layers (c.frameOf layers true ref)
          history).verbatim :=
        List.mem_flatMap.mpr ⟨raw, List.mem_append_left _ hraw, List.mem_cons_self ..⟩
      rw [enforceNativeBudget_of_fits hfits, hmessage,
        ← hsame raw.message (haccounted.verbatim_subset hmem) hone]
      exact mem_assembleNativeMessages (List.mem_append_left _ hraw)
  · have hstart : c.startLayout layers (c.frameOf layers true ref) history =
        layoutAll (c.frameOf layers true ref) history := by
      simp [startLayout, hover]
    rw [hstart]
    apply user_mem_enforceNativeBudget huser _ hgroups
    exact mem_seedFirst.mpr (mem_assembleNativeMessages (List.mem_append_right _ hgroups))

end Compiler

/-! ## Whole runs -/

theorem taskSurvives_of_mem {userMessage : String} {messages : List Message}
    (h : taskMessage userMessage ∈ messages) : TaskSurvives userMessage messages := by
  refine ⟨⟨_, h, rfl, ?_⟩, _, h, seedText userMessage, rfl, contains_append_right _ _⟩
  have hopening : Contains nativeToolsUserPrefix "For file tools, use workspace-relative paths; " :=
    contains_append_left _ _
  apply strip_ne_empty_of_contains
    (((contains_append_left _ userMessage).trans (contains_append_left _ _)).trans hopening)
  exact strip_ne_empty_iff.mpr ⟨'F', by simp, by decide⟩

/-- The task is in the transcript, and no other object has its identity. -/
structure Transcript.HasTask (userMessage : String) (s : Transcript) : Prop where
  mem : taskMessage userMessage ∈ s.messages
  same : ∀ m ∈ s.messages, m.ref = 1 → m = taskMessage userMessage
  bound : 2 ≤ s.nextRef

namespace Transcript

variable {c : Compiler} {userMessage : String}

theorem start_hasTask : (start userMessage).HasTask userMessage := by
  refine ⟨by simp [start, initialNativeMessages, alloc, taskMessage], ?_, Nat.le_refl 2⟩
  intro m hm hone
  simp only [start, initialNativeMessages, alloc, List.mem_cons, List.not_mem_nil, or_false] at hm
  rcases hm with hm | hm
  · subst hm
    cases hone
  · exact hm

theorem HasTask.next {s : Transcript} (h : s.HasTask userMessage) {turn : Turn}
    (hkeep : c.keepsTask turn.layers (s.preambleRef turn) (s.extended turn) = true) :
    ((recompilations c).next s turn).HasTask userMessage := by
  have hsame : ∀ m ∈ s.extended turn, m.ref = 1 → m = taskMessage userMessage := by
    intro m hm hone
    rcases List.mem_append.mp hm with hm | hm
    · exact h.same m hm hone
    · have := (ref_of_mem_alloc hm).1
      have := h.bound
      omega
  have hbound : 2 ≤ s.preambleRef turn := Nat.le_trans h.bound (Nat.le_add_right _ _)
  refine ⟨?_, ?_, Nat.le_succ_of_le hbound⟩
  · exact Compiler.task_mem_compileNative rfl rfl hsame (List.mem_append_left _ h.mem) hkeep
  · intro m hm hone
    rcases Compiler.mem_compileNative hm with href | hm
    · omega
    · exact hsame m hm hone

/-- However often the transcript is compiled, the user's task is in the list, as long
as every compilation keeps it out of the older groups. -/
theorem task_survives (c : Compiler) (userMessage : String) (turns : List Turn)
    (hkeep : (recompilations c).Along (fun s turn =>
      c.keepsTask turn.layers (s.preambleRef turn) (s.extended turn) = true)
        (start userMessage) turns) :
    ∀ before, before <+: turns →
      TaskSurvives userMessage ((recompilations c).run (start userMessage) before).messages := by
  intro before hbefore
  obtain ⟨after, rfl⟩ := hbefore
  have hbefore := (Machine.along_append.mp hkeep).1
  have htask : ((recompilations c).run (start userMessage) before).HasTask userMessage :=
    Machine.run_invariant (fun s turn h hG => h.next hG) start_hasTask hbefore
  exact taskSurvives_of_mem htask.mem

def oneRead : Turn where
  groups := [readGroup "call_1" "lexer.py" 300]
  layers := { userMessage := "Fix the parser." }

theorem oneRead_keeps_task :
    readCompiler.keepsTask oneRead.layers ((start "Fix the parser.").preambleRef oneRead)
        ((start "Fix the parser.").extended oneRead) = true ∧
      TaskSurvives "Fix the parser."
        ((recompilations readCompiler).run (start "Fix the parser.") [oneRead]).messages := by
  have hkeep : readCompiler.keepsTask oneRead.layers
      ((start "Fix the parser.").preambleRef oneRead)
      ((start "Fix the parser.").extended oneRead) = true := by
    decide +kernel
  exact ⟨hkeep, task_survives readCompiler "Fix the parser." [oneRead] ⟨hkeep, trivial⟩ [oneRead]
    List.prefix_rfl⟩

end Transcript

/-! ## A task pushed out -/

theorem Compiler.no_user_enforceNativeBudget {c : Compiler} {frame : Frame} {layout : Layout}
    (hverbatim : ∀ m ∈ layout.verbatim, m.role ≠ .user)
    (hlist : ∀ m ∈ layout.messages, m.role ≠ .user) :
    ∀ m ∈ (c.enforceNativeBudget frame layout).messages, m.role ≠ .user := by
  have hkeep : (∀ m ∈ (c.enforceNativeBudget frame layout).messages, m.role ≠ .user) ∧
      ∀ m ∈ (c.enforceNativeBudget frame layout).verbatim, m.role ≠ .user := by
    apply enforceNativeBudget_invariant (P := fun l => (∀ m ∈ l.messages, m.role ≠ .user) ∧
      ∀ m ∈ l.verbatim, m.role ≠ .user)
    · intro layout gone raw recent h htrim
      have hsub : raw ++ recent ⊆ layout.raw ++ layout.recent :=
        fun group hgroup => (trim_perm htrim).subset (List.mem_cons_of_mem gone hgroup)
      have hrest : ∀ m ∈ (raw ++ recent).flatMap Group.messages, m.role ≠ .user := by
        intro m hm
        obtain ⟨group, hgroup, hin⟩ := List.mem_flatMap.mp hm
        exact h.2 m (List.mem_flatMap.mpr ⟨group, hsub hgroup, hin⟩)
      refine ⟨?_, hrest⟩
      intro m hm
      rw [trimmed, assembleNativeMessages_eq] at hm
      rcases List.mem_cons.mp hm with hm | hm
      · rw [hm]
        exact Role.noConfusion
      · exact hrest m hm
    · exact ⟨hlist, hverbatim⟩
  exact hkeep.1

/-- Three reads over the watermark leave two groups recent; the user's task is not
among them, and no user message is left. -/
theorem readTurn_drops_task :
    ¬ ∀ before, before <+: [readTurn] → TaskSurvives "Fix the parser."
      ((recompilations readCompiler).run (.start "Fix the parser.") before).messages := by
  intro h
  obtain ⟨⟨m, hm, hrole, -⟩, -⟩ := h [readTurn] List.prefix_rfl
  change m ∈ (readCompiler.compileNative _ _ true _ _).layout.messages at hm
  have hover : readCompiler.overHigh ((Transcript.start "Fix the parser.").extended readTurn) =
      true := by
    decide +kernel
  have hverbatim : ∀ m ∈ (readCompiler.layoutCompressed readTurn.layers
      (readCompiler.frameOf readTurn.layers true
        ((Transcript.start "Fix the parser.").preambleRef readTurn))
      ((Transcript.start "Fix the parser.").extended readTurn)).verbatim, m.role ≠ .user := by
    decide +kernel
  rw [Compiler.compileNative_layout, Compiler.startLayout, if_pos hover] at hm
  refine Compiler.no_user_enforceNativeBudget hverbatim ?_ m hm hrole
  intro m hm
  rw [Compiler.layoutCompressed, Compiler.assembleNativeMessages_eq] at hm
  rcases List.mem_cons.mp hm with hm | hm
  · rw [hm]
    exact Role.noConfusion
  · exact hverbatim m hm

end Native
end CodeCub

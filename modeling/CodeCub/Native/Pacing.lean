import CodeCub.Native.Assembler

/-!
# When the compiler compresses

The budget compares the length of the transcript with the length at the last counted
compression.  Each assembly writes the compiled list back, without the groups it
condensed, so the difference of the two lengths is not the number of messages that were
appended in between: it is short of it by every message condensed since.
-/

namespace CodeCub
namespace Native

/-- The messages appended since the last assembly, and what this one renders. -/
structure Round where
  messages : List Message
  layers : Layers

/-- A session with what happened since its last counted compression: the messages that
the loop appended, those that the assembler seeded again, and those that were condensed,
at that compression or later. -/
structure Paced where
  session : Session
  appended : Nat := 0
  seeded : Nat := 0
  condensed : Nat := 0

namespace Paced

variable (c : Compiler) (userMessage : String)

def start : Paced := { session := .start userMessage }

/-- The session when the assembly starts. -/
def loaded (s : Paced) (round : Round) : Session := s.session.append round.messages

def history (s : Paced) (round : Round) : List Message := (s.loaded round).history userMessage

/-- The messages of a new seed, if there is one. -/
def seeds (s : Paced) (round : Round) : Nat := if (s.loaded round).stripped.isEmpty then 2 else 0

/-- What `should_compress` answers at the assembly. -/
def answer (s : Paced) (round : Round) : Bool :=
  c.budget.shouldCompress s.session.hysteresis
    (c.estimateNativeTokens (s.history userMessage round)) (s.history userMessage round).length
    (c.historySpanFingerprint (s.history userMessage round))

/-- The messages of the groups that the assembly condenses. -/
def givenUp (s : Paced) (round : Round) : Nat :=
  ((c.assemble userMessage (s.loaded round) round.layers).2.older.flatMap Group.messages).length

def machine : Machine Paced Round Bool where
  step s round :=
    let session := (c.assemble userMessage (s.loaded round) round.layers).1
    let counted := s.answer c userMessage round
    let condensed := s.givenUp c userMessage round
    (if counted then { session := session, condensed := condensed }
     else
      { session := session
        appended := s.appended + round.messages.length
        seeded := s.seeded + s.seeds round
        condensed := s.condensed + condensed }, counted)

/-- Above the watermark and with enough messages appended, the answer is yes. -/
def Answered (s : Paced) (round : Round) : Prop :=
  c.overHigh (s.history userMessage round) = true →
    c.budget.minNewHistoryEntries ≤ s.appended + round.messages.length →
      s.answer c userMessage round = true

/-- The fingerprint of the span to compress is the registered one. -/
def SameSpan (s : Paced) (round : Round) : Prop :=
  c.historySpanFingerprint (s.history userMessage round) ≠ "" ∧
    s.session.hysteresis.lastCompressedSpanFingerprint ≠ "" ∧
    c.historySpanFingerprint (s.history userMessage round) =
      s.session.hysteresis.lastCompressedSpanFingerprint

/-- At such an assembly there was no counted compression before, or the appended messages
outweigh the condensed ones by enough, and the span is a new one. -/
def Outweighs (s : Paced) (round : Round) : Prop :=
  c.overHigh (s.history userMessage round) = true →
    c.budget.minNewHistoryEntries ≤ s.appended + round.messages.length →
      s.session.hysteresis.lastCompressedHistoryLen = 0 ∨
        c.budget.minNewHistoryEntries ≤
            s.appended + round.messages.length + (s.seeded + s.seeds round) - s.condensed ∧
          ¬ s.SameSpan c userMessage round

/-- Since the last counted compression, what came into the transcript is still there or
was condensed. -/
structure Counts (s : Paced) : Prop where
  preamble : ∀ p ∈ s.session.lastPreamble, p < s.session.nextRef
  below : ∀ m ∈ s.session.stripped, m.ref < s.session.nextRef
  length : s.session.hysteresis.lastCompressedHistoryLen ≠ 0 →
    s.session.stripped.length + s.condensed =
      s.session.hysteresis.lastCompressedHistoryLen + s.appended + s.seeded

end Paced

/-! ## Every message is kept -/

theorem length_alloc (ref : Nat) (messages : List Message) :
    (alloc ref messages).length = messages.length := by
  induction messages generalizing ref with
  | nil => rfl
  | cons message rest ih => simp [alloc, ih]

theorem length_attach {result : Message} {groups groups' : List Group}
    (h : attach result groups = some groups') :
    (groups'.flatMap Group.messages).length = (groups.flatMap Group.messages).length + 1 := by
  induction groups generalizing groups' with
  | nil => simp [attach] at h
  | cons group older ih =>
      simp only [attach] at h
      split at h
      · cases h
        simp only [List.flatMap_cons, Group.messages, List.length_append, List.length_cons,
          List.length_nil]
        omega
      · obtain ⟨older', hattach, rfl⟩ := Option.map_eq_some_iff.mp h
        simp only [List.flatMap_cons, List.length_append, ih hattach]
        omega

theorem length_groupStep (groups : List Group) (index : Nat) (message : Message) :
    ((groupStep groups index message).flatMap Group.messages).length =
      (groups.flatMap Group.messages).length + 1 := by
  unfold groupStep
  split
  · cases hattach : attach message groups with
    | none => simp [Group.messages]
    | some groups' => exact length_attach hattach
  · simp [Group.messages]

theorem length_groupNativeMessages (messages : List Message) :
    ((groupNativeMessages messages).flatMap Group.messages).length = messages.length := by
  have hfrom : ∀ (messages : List Message) (index : Nat) (groups : List Group),
      ((groupFrom index groups messages).flatMap Group.messages).length =
        (groups.flatMap Group.messages).length + messages.length := by
    intro messages
    induction messages with
    | nil => intro index groups; rfl
    | cons message rest ih =>
        intro index groups
        show ((groupFrom (index + 1) (groupStep groups index message) rest).flatMap _).length = _
        rw [ih, length_groupStep, List.length_cons]
        omega
  have hreverse : ((groupFrom 0 [] messages).reverse.flatMap Group.messages).length =
      ((groupFrom 0 [] messages).flatMap Group.messages).length :=
    ((List.reverse_perm _).flatMap_right Group.messages).length_eq
  rw [groupNativeMessages, hreverse, hfrom]
  simp

/-- The verbatim part and the condensed groups have all the messages. -/
theorem Compiler.Accounted.length {history : List Message} {layout : Compiler.Layout}
    (h : Compiler.Accounted (groupNativeMessages history) layout) :
    layout.verbatim.length + (layout.older.flatMap Group.messages).length = history.length := by
  have hlength := h.dealt.flatten.length_eq
  rw [← List.flatMap_def, ← List.flatMap_def, length_groupNativeMessages, List.flatMap_append,
    List.length_append] at hlength
  exact hlength

namespace Paced

variable {c : Compiler} {userMessage : String} {s : Paced}

/-- Who adds to the transcript before the assembly. -/
theorem Counts.length_history (h : s.Counts) (userMessage : String) (round : Round) :
    (s.history userMessage round).length =
      s.session.stripped.length + round.messages.length + s.seeds round := by
  have hstripped : (s.loaded round).stripped.length =
      s.session.stripped.length + round.messages.length := by
    rw [loaded, Session.stripped_append h.preamble, List.length_append, length_alloc]
  unfold history Session.history seeds
  by_cases hempty : (s.loaded round).stripped.isEmpty = true
  · rw [if_pos hempty, if_pos hempty]
    rw [List.isEmpty_iff] at hempty
    rw [hempty] at hstripped
    show 2 = _
    simp only [List.length_nil] at hstripped
    omega
  · rw [if_neg hempty, if_neg hempty, hstripped]
    rfl

/-- Everything handed to the compiler was created before the preamble. -/
theorem Counts.ref_lt (h : s.Counts) (round : Round) :
    ∀ m ∈ s.history userMessage round, m.ref < (s.loaded round).preambleRef := by
  intro m hm
  unfold history Session.history at hm
  unfold Session.preambleRef
  by_cases hempty : (s.loaded round).stripped.isEmpty = true
  · rw [if_pos hempty] at hm ⊢
    exact (ref_of_mem_alloc hm).2
  · rw [if_neg hempty] at hm ⊢
    rw [loaded, Session.stripped_append h.preamble] at hm
    show m.ref < s.session.nextRef + round.messages.length
    rcases List.mem_append.mp hm with hm | hm
    · have := h.below m hm
      omega
    · exact (ref_of_mem_alloc hm).2

/-- The next assembly strips the preamble, and nothing else. -/
theorem Counts.stripped_assemble (h : s.Counts) (c : Compiler) (userMessage : String)
    (round : Round) :
    (c.assemble userMessage (s.loaded round) round.layers).1.stripped =
        (c.assemble userMessage (s.loaded round) round.layers).2.verbatim ∧
      (c.assemble userMessage (s.loaded round) round.layers).1.lastPreamble =
        some (s.loaded round).preambleRef := by
  have hne : ∀ m ∈ s.history userMessage round, m.ref ≠ (s.loaded round).preambleRef :=
    fun m hm => Nat.ne_of_lt (h.ref_lt round m hm)
  have hrendered := Session.assemble_rendered c userMessage round.layers (s.loaded round)
  have haccounted := Session.assemble_accounted c userMessage round.layers (s.loaded round)
  have hlast : (c.assemble userMessage (s.loaded round) round.layers).1.lastPreamble =
      some (s.loaded round).preambleRef := preambleOf_rendered hrendered hne
  refine ⟨?_, hlast⟩
  rw [Session.stripped, hlast]
  exact filter_rendered hrendered fun m hm => hne m (haccounted.verbatim_subset hm)

theorem Counts.length_assemble (h : s.Counts) (c : Compiler) (userMessage : String)
    (round : Round) :
    (c.assemble userMessage (s.loaded round) round.layers).1.stripped.length +
      s.givenUp c userMessage round =
        s.session.stripped.length + round.messages.length + s.seeds round := by
  rw [← h.length_history userMessage round, (h.stripped_assemble c userMessage round).1]
  exact (Session.assemble_accounted c userMessage round.layers (s.loaded round)).length

/-- The hysteresis changes at a counted compression only. -/
theorem hysteresis_assemble (c : Compiler) (userMessage : String) (s : Paced) (round : Round) :
    (c.assemble userMessage (s.loaded round) round.layers).1.hysteresis =
      if s.answer c userMessage round then
        ⟨(s.history userMessage round).length,
          c.historySpanFingerprint (s.history userMessage round)⟩
      else s.session.hysteresis := by
  unfold Compiler.assemble Compiler.compileNative
  by_cases hanswer : s.answer c userMessage round = true
  · have hshould : c.budget.shouldCompress (s.loaded round).hysteresis
        (c.estimateNativeTokens ((s.loaded round).history userMessage))
        ((s.loaded round).history userMessage).length
        (c.historySpanFingerprint ((s.loaded round).history userMessage)) = true := hanswer
    rw [if_pos hanswer]
    simp only [hshould]
    rfl
  · have hshould : c.budget.shouldCompress (s.loaded round).hysteresis
        (c.estimateNativeTokens ((s.loaded round).history userMessage))
        ((s.loaded round).history userMessage).length
        (c.historySpanFingerprint ((s.loaded round).history userMessage)) = false :=
      Bool.not_eq_true _ ▸ hanswer
    rw [if_neg hanswer]
    simp only [hshould]
    cases c.overHigh ((s.loaded round).history userMessage) <;> rfl

theorem Counts.next (h : s.Counts) (c : Compiler) (userMessage : String) (round : Round) :
    ((machine c userMessage).next s round).Counts := by
  obtain ⟨hstripped, hlast⟩ := h.stripped_assemble c userMessage round
  have hbelow : ∀ m ∈ (c.assemble userMessage (s.loaded round) round.layers).1.stripped,
      m.ref < (s.loaded round).preambleRef + 1 := by
    intro m hm
    rw [hstripped] at hm
    have hmem := (Session.assemble_accounted c userMessage round.layers
      (s.loaded round)).verbatim_subset hm
    exact Nat.lt_succ_of_lt (h.ref_lt round m hmem)
  have hpreamble : ∀ p ∈ (c.assemble userMessage (s.loaded round) round.layers).1.lastPreamble,
      p < (s.loaded round).preambleRef + 1 := by
    intro p hp
    rw [hlast, Option.mem_some_iff] at hp
    omega
  have hlength := h.length_assemble c userMessage round
  have hhysteresis := hysteresis_assemble c userMessage s round
  have hhistory := h.length_history userMessage round
  by_cases hanswer : s.answer c userMessage round = true
  · have hnext : (machine c userMessage).next s round =
        { session := (c.assemble userMessage (s.loaded round) round.layers).1
          condensed := s.givenUp c userMessage round } := by
      simp [Machine.next, machine, hanswer]
    rw [if_pos hanswer] at hhysteresis
    rw [hnext]
    refine ⟨hpreamble, hbelow, fun _ => ?_⟩
    rw [hhysteresis]
    show (c.assemble userMessage (s.loaded round) round.layers).1.stripped.length +
      s.givenUp c userMessage round = (s.history userMessage round).length + 0 + 0
    omega
  · have hnext : (machine c userMessage).next s round =
        { session := (c.assemble userMessage (s.loaded round) round.layers).1
          appended := s.appended + round.messages.length
          seeded := s.seeded + s.seeds round
          condensed := s.condensed + s.givenUp c userMessage round } := by
      simp [Machine.next, machine, hanswer]
    rw [if_neg hanswer] at hhysteresis
    rw [hnext]
    refine ⟨hpreamble, hbelow, fun hcounted => ?_⟩
    rw [hhysteresis] at hcounted ⊢
    have hbefore := h.length hcounted
    show (c.assemble userMessage (s.loaded round) round.layers).1.stripped.length +
      (s.condensed + s.givenUp c userMessage round) =
        s.session.hysteresis.lastCompressedHistoryLen +
          (s.appended + round.messages.length) + (s.seeded + s.seeds round)
    omega

/-- At one assembly: the answer is as it should be exactly when the appended messages
outweigh the condensed ones. -/
theorem Counts.answered_iff (h : s.Counts) (round : Round) :
    s.Answered c userMessage round ↔ s.Outweighs c userMessage round := by
  have hhistory := h.length_history userMessage round
  unfold Answered Outweighs
  refine imp_congr_right fun hover => imp_congr_right fun happended => ?_
  have hhigh : ¬ c.budget.utilization (c.estimateNativeTokens (s.history userMessage round)) <
      c.budget.highWatermark := by
    simpa [Compiler.overHigh, ContextBudget.overHigh] using hover
  unfold answer ContextBudget.shouldCompress
  rw [if_neg hhigh]
  by_cases hfirst : s.session.hysteresis.lastCompressedHistoryLen = 0
  · simp [hfirst]
  · have hlength := h.length hfirst
    rw [if_neg hfirst]
    have hweigh : (s.history userMessage round).length -
        s.session.hysteresis.lastCompressedHistoryLen =
          s.appended + round.messages.length + (s.seeded + s.seeds round) - s.condensed := by
      omega
    rw [hweigh]
    by_cases hshort : s.appended + round.messages.length + (s.seeded + s.seeds round) -
        s.condensed < c.budget.minNewHistoryEntries
    · rw [if_pos hshort]
      simp only [Bool.false_eq_true, hfirst, false_or, false_iff, not_and]
      intro hle
      omega
    · rw [if_neg hshort]
      unfold SameSpan
      by_cases hspan : c.historySpanFingerprint (s.history userMessage round) ≠ "" ∧
          s.session.hysteresis.lastCompressedSpanFingerprint ≠ "" ∧
          c.historySpanFingerprint (s.history userMessage round) =
            s.session.hysteresis.lastCompressedSpanFingerprint
      · rw [if_pos hspan]
        simp only [Bool.false_eq_true, hfirst, false_or, false_iff]
        exact fun h => h.2 hspan
      · rw [if_neg hspan]
        simp only [hfirst, false_or, true_iff]
        exact ⟨by omega, hspan⟩

theorem start_counts (userMessage : String) : (start userMessage).Counts where
  preamble _ hp := nomatch hp
  below _ hm := (ref_of_mem_alloc hm).2
  length h := absurd rfl h

/-- In every run of assemblies, the compiler answers as the appended messages demand,
exactly when at each assembly that demands it these outweigh the condensed ones and the
span is new. -/
theorem compression_paced_iff (c : Compiler) (userMessage : String) (rounds : List Round) :
    (machine c userMessage).Along (Answered c userMessage) (start userMessage) rounds ↔
      (machine c userMessage).Along (Outweighs c userMessage) (start userMessage) rounds :=
  Machine.along_congr (P := Counts) (fun _ round h _ => h.next c userMessage round)
    (fun _ round h => h.answered_iff round) (start_counts userMessage)

/-! ## A run that starves -/

/-- A compilation whose layout fits is that layout. -/
theorem compileNative_of_fits {layers : Layers} {session : Session}
    (h : c.fits (c.startLayout layers (c.frameOf layers true session.preambleRef)
      (session.history userMessage)) = true) :
    (c.assemble userMessage session layers).2 =
      c.startLayout layers (c.frameOf layers true session.preambleRef)
        (session.history userMessage) := by
  have hlayout := c.compileNative_layout session.hysteresis layers session.preambleRef
    (session.history userMessage)
  rw [Compiler.enforceNativeBudget_of_fits h] at hlayout
  exact hlayout

/-- Equal messages of 100 tokens each in a usable budget of 1000. -/
def evenCompiler : Compiler where
  budget := { usableInputBudget := 1000 }
  tokens := fun _ => 100
  historySpanFingerprint := fun _ => ""
  signature := fun _ => ""
  scoreRawEvidence := fun _ _ _ => (0, false)
  condenser :=
    { condense := fun _ _ => "Earlier Investigation:"
      nonblank := fun _ _ => by decide }
  buildRepoMap := fun _ _ => []

/-- Three answers that the loop sends back. -/
def evenRound : Round where
  messages := (List.replicate 3
    [{ ref := 0, role := .assistant, content := some "a" },
     { ref := 0, role := .user, content := some "u" }]).flatten
  layers := { userMessage := "task" }

theorem estimate_even (messages : List Message) :
    evenCompiler.estimateNativeTokens messages = 100 * messages.length := by
  induction messages with
  | nil => rfl
  | cons message rest ih =>
      show 100 + evenCompiler.estimateNativeTokens rest = 100 * (rest.length + 1)
      omega

/-- The first assembly compresses: it counts, and gives five of eight messages up. -/
theorem even_first :
    (start "task").answer evenCompiler "task" evenRound = true ∧
      (start "task").givenUp evenCompiler "task" evenRound = 5 ∧
      ((start "task").history "task" evenRound).length = 8 := by
  have hfits : evenCompiler.fits (evenCompiler.startLayout evenRound.layers
      (evenCompiler.frameOf evenRound.layers true ((start "task").loaded evenRound).preambleRef)
      (((start "task").loaded evenRound).history "task")) = true := by
    decide +kernel
  refine ⟨by decide +kernel, ?_, by decide +kernel⟩
  unfold givenUp
  rw [compileNative_of_fits hfits]
  decide +kernel

/-- Three messages are left of eight, six are appended: one more than eight. -/
theorem even_second {s : Paced} (h : s.Counts) (happended : s.appended = 0)
    (hseeded : s.seeded = 0) (hcondensed : s.condensed = 5)
    (hlast : s.session.hysteresis.lastCompressedHistoryLen = 8) :
    ¬ s.Answered evenCompiler "task" evenRound := by
  have hleft := h.length (by omega)
  have hstripped : (s.loaded evenRound).stripped.length = 9 := by
    rw [loaded, Session.stripped_append h.preamble, List.length_append, length_alloc]
    show s.session.stripped.length + 6 = 9
    omega
  have hseeds : s.seeds evenRound = 0 := by
    unfold seeds
    rw [if_neg]
    intro hempty
    rw [List.isEmpty_iff.mp hempty] at hstripped
    cases hstripped
  have hlength : (s.history "task" evenRound).length = 9 := by
    rw [h.length_history, hseeds]
    show s.session.stripped.length + 6 + 0 = 9
    omega
  have hover : evenCompiler.overHigh (s.history "task" evenRound) = true := by
    unfold Compiler.overHigh
    rw [estimate_even, hlength]
    decide +kernel
  intro hanswered
  have hweighs := (h.answered_iff evenRound).mp hanswered hover
    (show 4 ≤ s.appended + 6 by omega)
  rcases hweighs with hfirst | ⟨hweighs, -⟩
  · omega
  · have hweighs : 4 ≤ s.appended + 6 + (s.seeded + s.seeds evenRound) - s.condensed := hweighs
    omega

/-- The first assembly compresses eight messages to three.  At the second one the
transcript has nine messages, six of them new, and is not compressed. -/
theorem evenRounds_starve :
    ¬ (machine evenCompiler "task").Along (Answered evenCompiler "task") (start "task")
      [evenRound, evenRound] := by
  intro h
  obtain ⟨hanswer, hgiven, hlength⟩ := even_first
  have hnext : (machine evenCompiler "task").next (start "task") evenRound =
      { session := (evenCompiler.assemble "task" ((start "task").loaded evenRound)
          evenRound.layers).1
        condensed := 5 } := by
    simp [Machine.next, machine, hanswer, hgiven]
  have hlast := hysteresis_assemble evenCompiler "task" (start "task") evenRound
  rw [if_pos hanswer, hlength] at hlast
  have hcounts := (start_counts "task").next evenCompiler "task" evenRound
  have hanswered := h.2.1
  rw [hnext] at hcounts hanswered
  exact even_second hcounts rfl rfl rfl (congrArg Hysteresis.lastCompressedHistoryLen hlast)
    hanswered

end Paced

end Native
end CodeCub

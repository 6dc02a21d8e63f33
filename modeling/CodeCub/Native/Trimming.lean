import CodeCub.Native.Accounting

/-!
# The order of what is condensed

Every round of the budget loop puts the group it gives up before the groups that were
given up earlier.  The list that the condenser gets stays in transcript order only if
no group is newer than those it is put before, whereas the recent groups are given up
oldest first.
-/

namespace CodeCub
namespace Native

/-- In transcript order. -/
def Chronological (groups : List Group) : Prop := groups.Pairwise fun a b => a.index ≤ b.index

theorem chronological_cons {group : Group} {groups : List Group} :
    Chronological (group :: groups) ↔
      (∀ other ∈ groups, group.index ≤ other.index) ∧ Chronological groups :=
  List.pairwise_cons

namespace Compiler

variable {c : Compiler} {frame : Frame} {layout : Layout} {group : Group}
  {raw recent : List Group}

/-! ## The rounds of the budget loop -/

/-- The rendered list is over the budget. -/
def Over (c : Compiler) (layout : Layout) : Prop :=
  c.budget.usableInputBudget < c.estimateNativeTokens layout.messages

/-- The layouts after each round of the loop. -/
def rounds (c : Compiler) (frame : Frame) (layout : Layout) : List Layout :=
  if c.budget.usableInputBudget < c.estimateNativeTokens layout.messages then
    match h : trim layout.raw layout.recent with
    | none => []
    | some (group, raw, recent) =>
        have := trim_length h
        c.trimmed frame layout group raw recent ::
          rounds c frame (c.trimmed frame layout group raw recent)
  else
    []
termination_by layout.raw.length + layout.recent.length

theorem rounds_of_trim (hover : c.Over layout)
    (htrim : trim layout.raw layout.recent = some (group, raw, recent)) :
    c.rounds frame layout = c.trimmed frame layout group raw recent ::
      c.rounds frame (c.trimmed frame layout group raw recent) := by
  unfold Over at hover
  rw [rounds, if_pos hover]
  split
  · next hnone =>
      rw [htrim] at hnone
      cases hnone
  · next hsome =>
      rw [htrim] at hsome
      cases hsome
      rfl

theorem rounds_of_stop (hstop : c.Over layout → trim layout.raw layout.recent = none) :
    c.rounds frame layout = [] := by
  rw [rounds]
  split
  · next hover =>
      have hnone := hstop hover
      split
      · rfl
      · next hsome =>
          rw [hnone] at hsome
          cases hsome
  · rfl

/-- The loop returns the layout of its last round. -/
theorem enforceNativeBudget_eq_getLast (c : Compiler) (frame : Frame) (layout : Layout) :
    c.enforceNativeBudget frame layout = (c.rounds frame layout).getLastD layout := by
  induction layout using enforceNativeBudget.induct c frame with
  | case1 layout hover htrim =>
      rw [rounds_of_stop fun _ => htrim, enforceNativeBudget_of_fits (by simp [fits, htrim])]
      rfl
  | case2 layout hover group raw recent htrim hlt ih =>
      rw [rounds_of_trim hover htrim, List.getLastD_cons, ← ih, enforceNativeBudget, if_pos hover]
      split
      · next hnone =>
          rw [htrim] at hnone
          cases hnone
      · next hsome =>
          rw [htrim] at hsome
          cases hsome
          rfl
  | case3 layout hfit =>
      rw [rounds_of_stop fun hover => absurd hover hfit,
        enforceNativeBudget_of_fits (by simp [fits]; omega)]
      rfl

/-- The lists that the loop hands to `_compress_older_groups`. -/
def handed (c : Compiler) (frame : Frame) (layout : Layout) : List (List Group) :=
  (c.rounds frame layout).map Layout.condensed

/-! ## Transcript order -/

/-- The group that the loop gives up next is no newer than any it has given up: while
there is raw evidence the one of least score, then the first recent group that is
neither system nor user. -/
def TrimsInOrder (c : Compiler) (layout : Layout) : Prop :=
  c.Over layout → ∀ group raw recent, trim layout.raw layout.recent = some (group, raw, recent) →
    ∀ older ∈ layout.older, group.index ≤ older.index

theorem trimsInOrder_iff (hover : c.Over layout)
    (htrim : trim layout.raw layout.recent = some (group, raw, recent)) :
    c.TrimsInOrder layout ↔ ∀ older ∈ layout.older, group.index ≤ older.index := by
  constructor
  · intro h
    exact h hover group raw recent htrim
  · intro h _ group' raw' recent' htrim'
    rw [htrim] at htrim'
    cases htrim'
    exact h

/-- Every list handed to the condenser is in transcript order exactly when every round
gives up a group no newer than the older ones. -/
theorem handed_chronological_iff (c : Compiler) (frame : Frame) (layout : Layout)
    (holder : Chronological layout.older) :
    (∀ groups ∈ c.handed frame layout, Chronological groups) ↔
      ∀ l ∈ layout :: c.rounds frame layout, c.TrimsInOrder l := by
  unfold handed
  induction layout using enforceNativeBudget.induct c frame with
  | case1 layout hover htrim =>
      rw [rounds_of_stop fun _ => htrim]
      simp [TrimsInOrder, htrim]
  | case2 layout hover group raw recent htrim hlt ih =>
      rw [rounds_of_trim hover htrim, List.map_cons, List.forall_mem_cons, List.forall_mem_cons,
        trimsInOrder_iff hover htrim]
      show Chronological (group :: layout.older) ∧ _ ↔ _
      rw [chronological_cons, and_iff_left holder]
      refine and_congr_right fun hfirst => ih ?_
      exact chronological_cons.mpr ⟨hfirst, holder⟩
  | case3 layout hfit =>
      have hstop : ¬ c.Over layout := hfit
      rw [rounds_of_stop fun hover => absurd hover hstop]
      simp [TrimsInOrder, hstop]

/-! ## Recent groups -/

/-- Without raw evidence the first removable recent group goes. -/
theorem trim_recent {groups : List Group} (htrim : trim [] groups = some (group, raw, recent)) :
    removable group = true ∧ raw = [] ∧ ∃ before after, groups = before ++ group :: after ∧
      recent = before ++ after ∧ ∀ other ∈ before, removable other = false := by
  unfold trim at htrim
  rw [leastIndex, List.getElem?_nil] at htrim
  dsimp only at htrim
  split at htrim
  · next found hfound =>
      cases htrim
      obtain ⟨hlt, rfl⟩ := List.getElem?_eq_some_iff.mp hfound
      refine ⟨List.findIdx_getElem, rfl, groups.take (groups.findIdx removable),
        groups.drop (groups.findIdx removable + 1), ?_, List.eraseIdx_eq_take_drop_succ _ _, ?_⟩
      · rw [← List.drop_eq_getElem_cons hlt, List.take_append_drop]
      · intro other hother
        obtain ⟨i, hi, rfl⟩ := List.mem_iff_getElem.mp hother
        rw [List.length_take] at hi
        rw [List.getElem_take]
        simpa using List.not_of_lt_findIdx (show i < groups.findIdx removable by omega)
  · cases htrim

/-- Without raw evidence the lists stay in transcript order exactly when the loop gives
up at most one group, and that one only when nothing is older. -/
theorem handed_chronological_of_no_raw (c : Compiler) (frame : Frame) (layout : Layout)
    (hraw : layout.raw = [])
    (hindex : (layout.older ++ layout.recent).Pairwise fun a b => a.index < b.index) :
    (∀ groups ∈ c.handed frame layout, Chronological groups) ↔
      (c.rounds frame layout).length ≤ 1 ∧
        (c.rounds frame layout ≠ [] → layout.older = []) := by
  obtain ⟨-, hrecent, hbefore⟩ := List.pairwise_append.mp hindex
  unfold handed
  by_cases hstop : c.Over layout → trim layout.raw layout.recent = none
  · rw [rounds_of_stop hstop]
    simp
  obtain ⟨hover, hsome⟩ := Classical.not_imp.mp hstop
  obtain ⟨⟨group, raw, recent⟩, htrim⟩ := Option.ne_none_iff_exists'.mp hsome
  rw [rounds_of_trim hover htrim]
  rw [hraw] at htrim
  obtain ⟨-, rfl, before, after, hsplit, rfl, hkept⟩ := trim_recent htrim
  have hmem : group ∈ layout.recent := by
    rw [hsplit]
    exact List.mem_append_right _ List.mem_cons_self
  have hfirst : Chronological (group :: layout.older) ↔ layout.older = [] := by
    constructor
    · intro hchronological
      rw [List.eq_nil_iff_forall_not_mem]
      intro older holder
      have hle := (chronological_cons.mp hchronological).1 older holder
      have hlt := hbefore older holder group hmem
      omega
    · intro hnil
      rw [hnil]
      exact List.pairwise_singleton _ group
  let next := c.trimmed frame layout group [] (before ++ after)
  by_cases hagain : c.Over next → trim next.raw next.recent = none
  · rw [rounds_of_stop hagain]
    simpa using show Chronological next.condensed ↔ layout.older = [] from hfirst
  · obtain ⟨hover', hsome'⟩ := Classical.not_imp.mp hagain
    obtain ⟨⟨group', raw', recent'⟩, htrim'⟩ := Option.ne_none_iff_exists'.mp hsome'
    rw [rounds_of_trim hover' htrim']
    have hlater : group.index < group'.index := by
      obtain ⟨hremovable, -, before', after', hsplit', -, -⟩ := trim_recent htrim'
      have hmem' : group' ∈ before ++ after := by
        show group' ∈ next.recent
        rw [hsplit']
        exact List.mem_append_right _ List.mem_cons_self
      rw [hsplit] at hrecent
      have hafter := (List.pairwise_cons.mp (List.pairwise_append.mp hrecent).2.1).1
      rcases List.mem_append.mp hmem' with hfront | hback
      · rw [hkept group' hfront] at hremovable
        cases hremovable
      · exact hafter group' hback
    refine iff_of_false (fun hall => ?_) (fun hfew => ?_)
    · have hsecond : Chronological (group' :: group :: layout.older) :=
        hall _ (List.mem_cons_of_mem _ List.mem_cons_self)
      have hle := (chronological_cons.mp hsecond).1 group List.mem_cons_self
      omega
    · have hlength := hfew.1
      simp only [List.length_cons] at hlength
      omega

/-! ## Three notes -/

/-- The `index`-th message of a transcript of plain assistant messages. -/
def noteGroup (index : Nat) : Group :=
  { index := index, message := { ref := index, role := .assistant, content := some "note" },
    results := [] }

/-- Three recent groups and nothing older. -/
def threeNotes : Layout where
  messages := [0, 1, 2].map fun index => (noteGroup index).message
  raw := []
  recent := [0, 1, 2].map noteGroup
  older := []
  condensed := []

def noteFrame : Frame :=
  { pinned := [], workingState := {}, memoryLayer := "", repoMap := [], ref := 3 }

/-- A compiler for which the preamble costs fifty tokens and a note a hundred. -/
def noteCompiler (usableInputBudget : Nat) : Compiler where
  budget := { usableInputBudget := usableInputBudget }
  tokens := fun message => if message.role = .system then 50 else 100
  historySpanFingerprint := fun _ => ""
  signature := fun _ => ""
  scoreRawEvidence := fun _ _ _ => (0, false)
  condenser :=
    { condense := fun _ _ => "Earlier Investigation: none"
      nonblank := fun _ _ => by decide }
  buildRepoMap := fun _ _ => []

/-- The layout after the first round. -/
def twoNotes (usableInputBudget : Nat) : Layout :=
  (noteCompiler usableInputBudget).trimmed noteFrame threeNotes (noteGroup 0) []
    ([1, 2].map noteGroup)

theorem threeNotes_rounds {budget : Nat} (hover : (noteCompiler budget).Over threeNotes) :
    (noteCompiler budget).rounds noteFrame threeNotes =
      twoNotes budget :: (noteCompiler budget).rounds noteFrame (twoNotes budget) :=
  rounds_of_trim hover (show trim _ _ = some (noteGroup 0, [], [1, 2].map noteGroup) by decide)

/-- A budget for two notes: one round, which hands over one group. -/
theorem twoNotes_chronological : Chronological threeNotes.older ∧
    ∀ groups ∈ (noteCompiler 260).handed noteFrame threeNotes, Chronological groups := by
  refine ⟨List.Pairwise.nil,
    (handed_chronological_iff (noteCompiler 260) noteFrame threeNotes List.Pairwise.nil).mpr ?_⟩
  have hover : (noteCompiler 260).Over threeNotes := by
    unfold Over
    decide
  have hfits : ¬ (noteCompiler 260).Over (twoNotes 260) := by
    unfold Over
    decide +kernel
  have hrounds : (noteCompiler 260).rounds noteFrame threeNotes = [twoNotes 260] := by
    rw [threeNotes_rounds hover, rounds_of_stop fun hagain => absurd hagain hfits]
  rw [hrounds]
  intro l hl
  rcases List.mem_pair.mp hl with rfl | rfl
  · intro _ group raw recent _ older holder
    cases holder
  · exact fun hagain => absurd hagain hfits

/-- A budget for one note: two rounds, and the second puts the second note before the
first. -/
theorem oneNote_reversed :
    Chronological threeNotes.raw ∧ Chronological threeNotes.recent ∧
      Chronological threeNotes.older ∧
      (∀ older ∈ threeNotes.older, ∀ group ∈ threeNotes.recent, older.index < group.index) ∧
      ¬ ∀ groups ∈ (noteCompiler 200).handed noteFrame threeNotes, Chronological groups := by
  refine ⟨List.Pairwise.nil, by unfold Chronological; decide, List.Pairwise.nil, nofun, ?_⟩
  intro h
  have hover : (noteCompiler 200).Over threeNotes := by
    unfold Over
    decide
  have hagain : (noteCompiler 200).Over (twoNotes 200) := by
    unfold Over
    decide +kernel
  have hsecond : [noteGroup 1, noteGroup 0] ∈ (noteCompiler 200).handed noteFrame threeNotes := by
    unfold handed
    rw [threeNotes_rounds hover,
      rounds_of_trim hagain (show trim _ _ = some (noteGroup 1, [], [noteGroup 2]) by decide)]
    exact List.mem_cons_of_mem _ List.mem_cons_self
  have hle := (chronological_cons.mp (h _ hsecond)).1 (noteGroup 0) List.mem_cons_self
  exact absurd hle (by decide)

end Compiler
end Native
end CodeCub

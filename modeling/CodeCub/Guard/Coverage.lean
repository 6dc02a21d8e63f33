import CodeCub.Guard.ReadSoundness

/-!
# What the read ledger covers

The coverage of a request is an exact partition of it, and the ledger that
`merge_read_ranges` keeps is a normal form: the records of one file version neither
overlap nor touch, and their lines are the lines of all records ever merged.
-/

namespace CodeCub
namespace Guard

open Python Span Workspace

variable {P C : Type}

/-! ## Sorting spans -/

theorem lexLe_trans (a b c : Span) (hab : lexLe a b = true) (hbc : lexLe b c = true) :
    lexLe a c = true := by
  simp only [lexLe, Bool.or_eq_true, Bool.and_eq_true, decide_eq_true_eq, beq_iff_eq] at *
  omega

theorem lexLe_total (a b : Span) : (lexLe a b || lexLe b a) = true := by
  simp only [lexLe, Bool.or_eq_true, Bool.and_eq_true, decide_eq_true_eq, beq_iff_eq]
  omega

theorem fst_le_of_lexLe {a b : Span} (h : lexLe a b = true) : a.1 ≤ b.1 := by
  simp only [lexLe, Bool.or_eq_true, Bool.and_eq_true, decide_eq_true_eq, beq_iff_eq] at h
  omega

example : lexLe (1, 20) (5, 10) = true := by decide +kernel

theorem sorted_mergeSort (spans : List Span) :
    (spans.mergeSort lexLe).Pairwise fun a b => a.1 ≤ b.1 :=
  (List.pairwise_mergeSort lexLe_trans lexLe_total spans).imp fst_le_of_lexLe

theorem covered_mergeSort {n : Int} {spans : List Span} :
    Covered n (spans.mergeSort lexLe) ↔ Covered n spans := by
  simp [Covered, List.mem_mergeSort]

/-! ## The coverage of a request -/

theorem overlap_eq_some {start stop : Int} {record : ReadRangeRecord} {s : Span} :
    Workspace.overlap start stop record = some s ↔
      s = (max start record.startLine, min stop record.endLine) ∧ Proper s := by
  unfold Workspace.overlap Proper
  simp only
  by_cases h : max start record.startLine ≤ min stop record.endLine
  · rw [if_pos h, Option.some.injEq]
    constructor
    · rintro rfl
      exact ⟨rfl, h⟩
    · rintro ⟨rfl, -⟩
      rfl
  · rw [if_neg h]
    constructor
    · intro hnone
      cases hnone
    · rintro ⟨rfl, hle⟩
      exact absurd hle h

theorem proper_of_within {n : Int} {s : Span} (h : Within n s) : Proper s :=
  le_trans h.1 h.2

/-- A line of the request is in the overlap exactly when it is in the record. -/
theorem within_overlap {n start stop : Int} {record : ReadRangeRecord} :
    (∃ s, Workspace.overlap start stop record = some s ∧ Within n s) ↔
      Within n (start, stop) ∧ Within n record.span := by
  constructor
  · rintro ⟨s, hs, hn⟩
    obtain ⟨rfl, -⟩ := overlap_eq_some.mp hs
    unfold Within ReadRangeRecord.span at *
    simp only at hn ⊢
    omega
  · intro h
    have hn : Within n (max start record.startLine, min stop record.endLine) := by
      unfold Within ReadRangeRecord.span at *
      simp only at h ⊢
      omega
    exact ⟨_, overlap_eq_some.mpr ⟨rfl, proper_of_within hn⟩, hn⟩

/-- What the records of the file at this version give of the request. -/
def matched (ws : Workspace P C) (path : String) (start stop : Int)
    (previous : List ReadRangeRecord) (version : Option String) : List Span :=
  (previous.filter fun record =>
    record.path == ws.canonicalPath path && record.freshness == version).filterMap
      (Workspace.overlap start stop)

section Coverage

variable {ws : Workspace P C} {path : String} {start stop : Int}
  {previous : List ReadRangeRecord} {version : Option String}

theorem matched_spec {s : Span} (hs : s ∈ matched ws path start stop previous version) :
    Proper s ∧ start ≤ s.1 ∧ s.2 ≤ stop := by
  obtain ⟨record, -, hoverlap⟩ := List.mem_filterMap.mp hs
  obtain ⟨rfl, hproper⟩ := overlap_eq_some.mp hoverlap
  exact ⟨hproper, le_max_left _ _, min_le_left _ _⟩

theorem covered_matched {n : Int} :
    Covered n (matched ws path start stop previous version) ↔
      Within n (start, stop) ∧ ∃ record ∈ previous, record.path = ws.canonicalPath path ∧
        record.freshness = version ∧ Within n record.span := by
  constructor
  · rintro ⟨s, hs, hn⟩
    obtain ⟨record, hrecord, hoverlap⟩ := List.mem_filterMap.mp hs
    obtain ⟨hmem, hsame⟩ := List.mem_filter.mp hrecord
    simp only [Bool.and_eq_true, beq_iff_eq] at hsame
    obtain ⟨hwhole, hspan⟩ := within_overlap.mp ⟨s, hoverlap, hn⟩
    exact ⟨hwhole, record, hmem, hsame.1, hsame.2, hspan⟩
  · rintro ⟨hwhole, record, hmem, hpath, hfresh, hspan⟩
    obtain ⟨s, hs, hn⟩ := within_overlap.mpr ⟨hwhole, hspan⟩
    refine ⟨s, List.mem_filterMap.mpr ⟨record, List.mem_filter.mpr ⟨hmem, ?_⟩, hs⟩, hn⟩
    simp [hpath, hfresh]

/-- Every span of a list lies inside a hull when every integer of it does. -/
theorem inside_of_covered {spans : List Span} (hproper : ∀ s ∈ spans, Proper s)
    (h : ∀ n, Covered n spans → Within n (start, stop)) :
    ∀ s ∈ spans, start ≤ s.1 ∧ s.2 ≤ stop := by
  intro s hs
  have hp := hproper s hs
  unfold Proper at hp
  have hlow := h s.1 ⟨s, hs, le_refl _, hp⟩
  have hhigh := h s.2 ⟨s, hs, hp, le_refl _⟩
  exact ⟨hlow.1, hhigh.2⟩

/-- The covered and the uncovered ranges cut the request into pieces, and a line of it is
covered exactly when a record of the same canonical path and version holds it. -/
theorem coverage_partitions (ws : Workspace P C) (path : String) (start stop : Int)
    (previous : List ReadRangeRecord) (version : Option String) :
    let coverage := ws.analyzeReadCoverage path start stop previous version
    Partition (start, stop) coverage.coveredRanges coverage.uncoveredRanges ∧
      ∀ n, Within n (start, stop) →
        (Covered n coverage.coveredRanges ↔
          ∃ record ∈ previous, record.path = ws.canonicalPath path ∧
            record.freshness = version ∧ Within n record.span) := by
  intro coverage
  have hsorted : (([] : List Span).reverse ++ (matched ws path start stop previous version).mergeSort
      lexLe).Pairwise fun a b => a.1 ≤ b.1 := sorted_mergeSort _
  have hcovered : ∀ n, Covered n coverage.coveredRanges ↔
      Covered n (matched ws path start stop previous version) := by
    intro n
    refine Iff.trans ?_ covered_mergeSort
    constructor
    · intro h
      exact (covered_of_mergeTouching h).resolve_left fun ⟨s, hs, _⟩ => List.not_mem_nil hs
    · intro h
      exact covered_mergeTouching hsorted (Or.inr h)
  obtain ⟨hseparated, hproper⟩ := @separated_mergeTouching
    ((matched ws path start stop previous version).mergeSort lexLe) [] List.Pairwise.nil
    (fun s hs => absurd hs List.not_mem_nil) hsorted
    fun s hs => (matched_spec (List.mem_mergeSort.mp hs)).1
  refine ⟨partition_gaps hseparated hproper (inside_of_covered hproper fun n h => ?_), ?_⟩
  · exact (covered_matched.mp ((hcovered n).mp h)).1
  · intro n hn
    rw [hcovered, covered_matched]
    exact and_iff_right hn

end Coverage

/-! ## The ledger's normal form -/

/-- No two records of one file version overlap or touch. -/
def Normal (records : List ReadRangeRecord) : Prop :=
  records.Pairwise fun a b => a.compatible b = true → Apart a.span b.span

/-- The line is in a record of this file version. -/
def Covers (records : List ReadRangeRecord) (path : String) (freshness : Option String)
    (n : Int) : Prop :=
  ∃ record ∈ records, record.path = path ∧ record.freshness = freshness ∧ Within n record.span

theorem covers_cons {record : ReadRangeRecord} {records : List ReadRangeRecord} {path : String}
    {freshness : Option String} {n : Int} :
    Covers (record :: records) path freshness n ↔
      (record.path = path ∧ record.freshness = freshness ∧ Within n record.span) ∨
        Covers records path freshness n := by
  simp [Covers]

theorem compatible_symm {a b : ReadRangeRecord} (h : a.compatible b = true) :
    b.compatible a = true := by
  rw [compatible_iff] at *
  exact ⟨h.1.symm, h.2.symm⟩

theorem normal_perm {a b : List ReadRangeRecord} (hperm : a.Perm b) : Normal a ↔ Normal b :=
  hperm.pairwise_iff fun h hcompat => (h (compatible_symm hcompat)).symm

theorem covers_perm {a b : List ReadRangeRecord} (hperm : a.Perm b) {path : String}
    {freshness : Option String} {n : Int} :
    Covers a path freshness n ↔ Covers b path freshness n := by
  simp only [Covers, hperm.mem_iff]

/-- Records kept from the start stay in front and change nothing else. -/
theorem absorb_append (start stop : Int) (step : Nat) (front retained pending : List ReadRangeRecord) :
    absorb start stop step (front ++ retained) pending =
      ((absorb start stop step retained pending).1,
        front ++ (absorb start stop step retained pending).2) := by
  induction pending generalizing start stop step retained with
  | nil => rfl
  | cons record pending ih =>
      rw [absorb, absorb]
      split
      · rw [List.append_assoc]
        exact ih start stop step (retained ++ [record])
      · exact ih _ _ _ retained

/-- The merging loop keeps some of the pending records, as they stand. -/
theorem absorb_sublist (start stop : Int) (step : Nat) (pending : List ReadRangeRecord) :
    (absorb start stop step [] pending).2.Sublist pending := by
  induction pending generalizing start stop step with
  | nil => exact List.Sublist.refl []
  | cons record pending ih =>
      rw [absorb]
      split
      · rw [List.nil_append, ← List.append_nil [record], absorb_append]
        exact (ih start stop step).cons_cons record
      · exact (ih _ _ _).cons record

/-- The loop's span only grows. -/
theorem absorb_grows (start stop : Int) (step : Nat) (retained pending : List ReadRangeRecord) :
    (absorb start stop step retained pending).1.1 ≤ start ∧
      stop ≤ (absorb start stop step retained pending).1.2.1 := by
  induction pending generalizing start stop step retained with
  | nil => exact ⟨le_refl _, le_refl _⟩
  | cons record pending ih =>
      rw [absorb]
      split
      · exact ih start stop step (retained ++ [record])
      · have h := ih (min start record.startLine) (max stop record.endLine)
          (max step record.step) retained
        omega

/-- Every pending record is kept or lies in the loop's span. -/
theorem absorb_complete {start stop : Int} {step : Nat}
    {retained pending : List ReadRangeRecord} {record : ReadRangeRecord} (h : record ∈ pending) :
    record ∈ (absorb start stop step retained pending).2 ∨
      ((absorb start stop step retained pending).1.1 ≤ record.startLine ∧
        record.endLine ≤ (absorb start stop step retained pending).1.2.1) := by
  induction pending generalizing start stop step retained with
  | nil => exact absurd h List.not_mem_nil
  | cons head pending ih =>
      rw [absorb]
      split
      · rcases List.mem_cons.mp h with rfl | h
        · rw [← List.append_nil (retained ++ [record]), absorb_append]
          exact Or.inl (List.mem_append_left _ (List.mem_append_right _ (by simp)))
        · exact ih h
      · rcases List.mem_cons.mp h with rfl | h
        · have hgrow := absorb_grows (min start record.startLine) (max stop record.endLine)
            (max step record.step) retained pending
          exact Or.inr (by omega)
        · exact ih h

/-- `record` is clear of the loop's span and of everything it may still take in: all of
that comes behind it, or all of it ends before it begins. -/
def Clear (start stop : Int) (pending : List ReadRangeRecord) (record : ReadRangeRecord) : Prop :=
  (record.endLine + 1 < start ∧ ∀ next ∈ pending, record.endLine + 1 < next.startLine) ∨
    (stop + 1 < record.startLine ∧ ∀ next ∈ pending, stop + 1 < next.startLine)

/-- In a separated row of pending records, what the loop keeps is clear of its span. -/
theorem absorb_apart {start stop : Int} {step : Nat} {retained pending : List ReadRangeRecord}
    (hspan : start ≤ stop) (hrow : Separated (pending.map ReadRangeRecord.span))
    (hproper : ∀ record ∈ pending, Proper record.span)
    (hclear : ∀ record ∈ retained, Clear start stop pending record) :
    ∀ record ∈ (absorb start stop step retained pending).2,
      Apart record.span ((absorb start stop step retained pending).1.1,
        (absorb start stop step retained pending).1.2.1) := by
  induction pending generalizing start stop step retained with
  | nil =>
      intro record hrecord
      show record.endLine + 1 < start ∨ stop + 1 < record.startLine
      rcases hclear record hrecord with h | h
      · exact Or.inl h.1
      · exact Or.inr h.1
  | cons head pending ih =>
      rw [List.forall_mem_cons] at hproper
      rw [Separated, List.map_cons, List.pairwise_cons] at hrow
      have hbehind : ∀ next ∈ pending, head.endLine + 1 < next.startLine :=
        fun next hnext => hrow.1 next.span (List.mem_map_of_mem hnext)
      have hhead : head.startLine ≤ head.endLine := hproper.1
      have hkeep : ∀ record ∈ retained, Clear start stop pending record := by
        intro record hrecord
        rcases hclear record hrecord with h | h
        · exact Or.inl ⟨h.1, fun next hnext => h.2 next (List.mem_cons_of_mem head hnext)⟩
        · exact Or.inr ⟨h.1, fun next hnext => h.2 next (List.mem_cons_of_mem head hnext)⟩
      rw [absorb]
      split
      · next haway =>
          refine ih hspan hrow.2 hproper.2 ?_
          intro record hrecord
          rcases List.mem_append.mp hrecord with hrecord | hrecord
          · exact hkeep record hrecord
          · rw [List.mem_singleton.mp hrecord]
            rcases haway with haway | haway
            · exact Or.inl ⟨haway, hbehind⟩
            · refine Or.inr ⟨by omega, fun next hnext => ?_⟩
              have := hbehind next hnext
              omega
      · next htouch =>
          refine ih (by omega) hrow.2 hproper.2 ?_
          intro record hrecord
          rcases hclear record hrecord with h | h
          · have hnext := h.2 head List.mem_cons_self
            exact Or.inl ⟨by omega, 
              fun next hmem => h.2 next (List.mem_cons_of_mem head hmem)⟩
          · -- a record behind the span keeps every later one out of it
            have hnext := h.2 head List.mem_cons_self
            omega

section Merge

variable {records : List ReadRangeRecord} {newRecord : ReadRangeRecord}

/-- The records the loop goes through, in order. -/
def pendingOf (records : List ReadRangeRecord) (newRecord : ReadRangeRecord) :
    List ReadRangeRecord :=
  (records.filter fun record => record.compatible newRecord).mergeSort fun a b =>
    lexLe a.span b.span

theorem mem_pendingOf {record : ReadRangeRecord} :
    record ∈ pendingOf records newRecord ↔
      record ∈ records ∧ record.compatible newRecord = true := by
  rw [pendingOf, List.mem_mergeSort, List.mem_filter]

/-- Sorted records of one version that are apart form a separated row. -/
theorem pendingOf_separated (hnormal : Normal records)
    (hproper : ∀ record ∈ records, Proper record.span) :
    Separated ((pendingOf records newRecord).map ReadRangeRecord.span) := by
  have hapart : Normal (pendingOf records newRecord) :=
    (normal_perm (List.mergeSort_perm _ _)).mpr (hnormal.sublist List.filter_sublist)
  have hsorted : (pendingOf records newRecord).Pairwise fun a b => lexLe a.span b.span = true :=
    List.pairwise_mergeSort (fun a b c => lexLe_trans a.span b.span c.span)
      (fun a b => lexLe_total a.span b.span) _
  rw [Separated, List.pairwise_map]
  refine (List.pairwise_iff_forall_sublist.mpr ?_)
  intro a b hsub
  have ha := mem_pendingOf.mp (hsub.subset List.mem_cons_self)
  have hb := mem_pendingOf.mp (hsub.subset (List.mem_cons_of_mem a List.mem_cons_self))
  have hcompat : a.compatible b = true := by
    have hab := compatible_iff.mp ha.2
    have hbb := compatible_iff.mp hb.2
    exact compatible_iff.mpr ⟨hab.1.trans hbb.1.symm, hab.2.trans hbb.2.symm⟩
  have hle := fst_le_of_lexLe (List.pairwise_iff_forall_sublist.mp hsorted hsub)
  have hp := hproper b hb.1
  unfold Proper at hp
  rcases List.pairwise_iff_forall_sublist.mp hapart hsub hcompat with h | h
  · exact h
  · omega

/-- The loop over the pending records, from the new one's span. -/
def taken (records : List ReadRangeRecord) (newRecord : ReadRangeRecord) :
    (Int × Int × Nat) × List ReadRangeRecord :=
  absorb newRecord.startLine newRecord.endLine newRecord.step [] (pendingOf records newRecord)

/-- The record that stands for the new one and everything it took in. -/
def mergedRecord (records : List ReadRangeRecord) (newRecord : ReadRangeRecord) :
    ReadRangeRecord :=
  ⟨newRecord.path, (taken records newRecord).1.1, (taken records newRecord).1.2.1,
    newRecord.freshness, (taken records newRecord).1.2.2⟩

/-- The records of other versions, the kept ones and the merged one, in some order. -/
theorem mergeReadRanges_perm (records : List ReadRangeRecord) (newRecord : ReadRangeRecord) :
    (mergeReadRanges records newRecord).Perm
      (((records.filter fun record => !record.compatible newRecord) ++
        (taken records newRecord).2) ++ [mergedRecord records newRecord]) := by
  have hfront := absorb_append newRecord.startLine newRecord.endLine newRecord.step
    (records.filter fun record => !record.compatible newRecord) [] (pendingOf records newRecord)
  rw [List.append_nil] at hfront
  unfold pendingOf at hfront
  unfold mergeReadRanges
  simp only [hfront]
  exact List.mergeSort_perm _ _

theorem compatible_of_mem_taken {record : ReadRangeRecord}
    (h : record ∈ (taken records newRecord).2) :
    record ∈ records ∧ record.compatible newRecord = true :=
  mem_pendingOf.mp ((absorb_sublist _ _ _ _).subset h)

theorem mergedRecord_compatible : (mergedRecord records newRecord).compatible newRecord = true :=
  compatible_iff.mpr ⟨rfl, rfl⟩

/-- One merge keeps the normal form. -/
theorem normal_merge (hnormal : Normal records) (hproper : ∀ record ∈ records, Proper record.span)
    (hnew : Proper newRecord.span) : Normal (mergeReadRanges records newRecord) := by
  rw [normal_perm (mergeReadRanges_perm records newRecord)]
  have hdiffer : ∀ a ∈ records.filter fun record => !record.compatible newRecord,
      ∀ b : ReadRangeRecord, b.compatible newRecord = true → a.compatible b = true →
        Apart a.span b.span := by
    intro a ha b hb hab
    have hnot := (List.mem_filter.mp ha).2
    have hyes : a.compatible newRecord = true := by
      rw [compatible_iff] at hb hab ⊢
      exact ⟨hab.1.trans hb.1, hab.2.trans hb.2⟩
    rw [hyes] at hnot
    exact absurd hnot (by decide)
  have hkept : Normal (taken records newRecord).2 := by
    have hrow : Normal (pendingOf records newRecord) :=
      (normal_perm (List.mergeSort_perm _ _)).mpr (hnormal.sublist List.filter_sublist)
    exact hrow.sublist (absorb_sublist _ _ _ _)
  have hapart := @absorb_apart newRecord.startLine newRecord.endLine newRecord.step []
    (pendingOf records newRecord) hnew (pendingOf_separated hnormal hproper)
    (fun record hrecord => hproper record (mem_pendingOf.mp hrecord).1)
    fun record hrecord => absurd hrecord List.not_mem_nil
  unfold Normal
  rw [List.pairwise_append, List.pairwise_append]
  refine ⟨⟨hnormal.sublist List.filter_sublist, hkept, ?_⟩, List.pairwise_singleton _ _, ?_⟩
  · exact fun a ha b hb => hdiffer a ha b (compatible_of_mem_taken hb).2
  · intro a ha b hb
    rw [List.mem_singleton.mp hb]
    rcases List.mem_append.mp ha with ha | ha
    · exact hdiffer a ha _ mergedRecord_compatible
    · exact fun _ => hapart a ha

theorem proper_merge (hproper : ∀ record ∈ records, Proper record.span)
    (hnew : Proper newRecord.span) :
    ∀ record ∈ mergeReadRanges records newRecord, Proper record.span := by
  intro record hrecord
  rw [(mergeReadRanges_perm records newRecord).mem_iff, List.mem_append, List.mem_append] at hrecord
  rcases hrecord with (hrecord | hrecord) | hrecord
  · exact hproper record (List.mem_filter.mp hrecord).1
  · exact hproper record (compatible_of_mem_taken hrecord).1
  · rw [List.mem_singleton.mp hrecord]
    have hgrow := absorb_grows newRecord.startLine newRecord.endLine newRecord.step []
      (pendingOf records newRecord)
    have hle : newRecord.startLine ≤ newRecord.endLine := hnew
    show (taken records newRecord).1.1 ≤ (taken records newRecord).1.2.1
    unfold taken
    omega

/-- One merge covers the lines of the ledger and of the new record, and no other line. -/
theorem covers_merge {path : String} {freshness : Option String} {n : Int} :
    Covers (mergeReadRanges records newRecord) path freshness n ↔
      Covers (newRecord :: records) path freshness n := by
  constructor
  · rintro ⟨record, hrecord, hpath, hfresh, hn⟩
    obtain ⟨other, hother, hpath', hfresh', hn'⟩ := mergeReadRanges_absorbs hrecord n hn
    exact ⟨other, hother, hpath'.trans hpath, hfresh'.trans hfresh, hn'⟩
  · rintro ⟨record, hrecord, hpath, hfresh, hn⟩
    rw [covers_perm (mergeReadRanges_perm records newRecord)]
    have hgrow := absorb_grows newRecord.startLine newRecord.endLine newRecord.step []
      (pendingOf records newRecord)
    have hmerged : mergedRecord records newRecord ∈
        ((records.filter fun record => !record.compatible newRecord) ++
          (taken records newRecord).2) ++ [mergedRecord records newRecord] := by simp
    rcases List.mem_cons.mp hrecord with rfl | hrecord
    · refine ⟨_, hmerged, hpath, hfresh, ?_⟩
      show (taken records record).1.1 ≤ n ∧ n ≤ (taken records record).1.2.1
      obtain ⟨hlow, hhigh⟩ := hn
      have hlow' : record.startLine ≤ n := hlow
      have hhigh' : n ≤ record.endLine := hhigh
      unfold taken
      omega
    · by_cases hcompat : record.compatible newRecord = true
      · rcases absorb_complete (mem_pendingOf.mpr ⟨hrecord, hcompat⟩) with hkept | hin
        · exact ⟨record, List.mem_append_left _ (List.mem_append_right _ hkept), hpath, hfresh, hn⟩
        · obtain ⟨hp, hf⟩ := compatible_iff.mp hcompat
          refine ⟨_, hmerged, hp.symm.trans hpath, hf.symm.trans hfresh, ?_⟩
          obtain ⟨hlow, hhigh⟩ := hn
          have hlow' : record.startLine ≤ n := hlow
          have hhigh' : n ≤ record.endLine := hhigh
          exact ⟨le_trans hin.1 hlow', le_trans hhigh' hin.2⟩
      · refine ⟨record, List.mem_append_left _ (List.mem_append_left _ ?_), hpath, hfresh, hn⟩
        exact List.mem_filter.mpr ⟨hrecord, by simpa using hcompat⟩

end Merge

/-- The ledger after records were merged into it one by one, without truncation. -/
def ledgerOf (records : List ReadRangeRecord) : List ReadRangeRecord :=
  records.foldl mergeReadRanges []

theorem foldl_merge_normal {ledger records : List ReadRangeRecord} (hnormal : Normal ledger)
    (hledger : ∀ record ∈ ledger, Proper record.span)
    (hproper : ∀ record ∈ records, Proper record.span) :
    Normal (records.foldl mergeReadRanges ledger) ∧
      ∀ path freshness n, Covers (records.foldl mergeReadRanges ledger) path freshness n ↔
        Covers ledger path freshness n ∨ Covers records path freshness n := by
  induction records generalizing ledger with
  | nil =>
      refine ⟨hnormal, fun path freshness n => (or_iff_left ?_).symm⟩
      rintro ⟨record, hrecord, -⟩
      exact List.not_mem_nil hrecord
  | cons newRecord records ih =>
      rw [List.forall_mem_cons] at hproper
      obtain ⟨hkeeps, hcovers⟩ := ih (normal_merge hnormal hledger hproper.1)
        (proper_merge hledger hproper.1) hproper.2
      refine ⟨hkeeps, fun path freshness n => ?_⟩
      rw [List.foldl_cons, hcovers, covers_merge, covers_cons, covers_cons]
      tauto

/-- From the empty ledger, every sequence of proper records merges into a normal form that
covers the lines of these records and no other line. -/
theorem merged_ledger_is_normal (records : List ReadRangeRecord)
    (hproper : ∀ record ∈ records, record.startLine ≤ record.endLine) :
    Normal (ledgerOf records) ∧
      ∀ path freshness n, Covers (ledgerOf records) path freshness n ↔
        Covers records path freshness n := by
  obtain ⟨hnormal, hcovers⟩ := @foldl_merge_normal [] records List.Pairwise.nil
    (fun record hrecord => absurd hrecord List.not_mem_nil) hproper
  refine ⟨hnormal, fun path freshness n => (hcovers path freshness n).trans (or_iff_right ?_)⟩
  rintro ⟨record, hrecord, -⟩
  exact List.not_mem_nil hrecord

/-- Lines 1 to 5 and 7 to 9 of one file, and then the line between them. -/
def adjoiningReads : List ReadRangeRecord :=
  [⟨"lexer.py", 1, 5, some "v1", 1⟩, ⟨"lexer.py", 7, 9, some "v1", 2⟩,
    ⟨"lexer.py", 6, 6, some "v1", 3⟩]

theorem adjoiningReads_merge :
    Normal (ledgerOf adjoiningReads) ∧
      ∀ path freshness n, Covers (ledgerOf adjoiningReads) path freshness n ↔
        Covers adjoiningReads path freshness n :=
  merged_ledger_is_normal adjoiningReads (by decide)

end Guard
end CodeCub

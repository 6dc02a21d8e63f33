import CodeCub.Python.StableSort

/-!
# The bound of a store

`_enforce_bounds` of `codecub/memory_v2/evidence.py` and `durable.py`: the records are sorted
by the time they were made, and the first ones are popped until the rest fits.  The loop
looks at the status of what it pops and does nothing with it.
-/

namespace CodeCub
namespace Memory

open Python
open scoped List

variable {R T : Type} [LinearOrder T]

/-- `while len(records) > max_records: records.pop(0)`.  Popping from an empty list raises. -/
def popOldest (maxRecords : ℤ) : List R → Option (List R)
  | [] => if maxRecords < 0 then none else some []
  | record :: records =>
      if maxRecords < records.length + 1 then popOldest maxRecords records
      else some (record :: records)

def olderFirst (createdAt : R → T) (a b : R) : Bool := createdAt a ≤ createdAt b

def enforceBounds (createdAt : R → T) (maxRecords : ℤ) (records : List R) : Option (List R) :=
  if (records.length : ℤ) ≤ maxRecords then some records
  else popOldest maxRecords (records.mergeSort (olderFirst createdAt))

/-- What is removed from a full store: superseded records as long as there are any, and the
older ones of those in one standing. -/
structure RetiresSupersededFirst (superseded : R → Bool) (createdAt : R → T) (maxRecords : ℤ)
    (before after removed : List R) : Prop where
  parts : before ~ removed ++ after
  full : (after.length : ℤ) = maxRecords
  liveLast : ∀ r ∈ removed, superseded r = false → ∀ kept ∈ after, superseded kept = false
  oldestFirst : ∀ r ∈ removed, ∀ kept ∈ after,
    superseded r = superseded kept → createdAt r ≤ createdAt kept

/-- How many records go over the bound. -/
def excess (maxRecords : ℤ) (records : List R) : ℕ := (records.length - maxRecords).toNat

/-- How many records are older than the one at a place, or as old and in front of it. -/
def olderRecords (createdAt : R → T) (records : List R) (p : R × ℕ) : ℕ :=
  sortedPlace (olderFirst createdAt) records p

/-- If one of the `k` oldest records is live, all superseded records are among them. -/
def SupersededAmongOldest (superseded : R → Bool) (createdAt : R → T) (k : ℕ)
    (records : List R) : Prop :=
  ∀ live ∈ records.zipIdx, superseded live.1 = false → olderRecords createdAt records live < k →
    ∀ old ∈ records.zipIdx, superseded old.1 = true → olderRecords createdAt records old < k

/-! ## Popping -/

theorem popOldest_of_neg {maxRecords : ℤ} (hneg : maxRecords < 0) (records : List R) :
    popOldest maxRecords records = none := by
  induction records with
  | nil => rw [popOldest, if_pos hneg]
  | cons record records ih =>
      rw [popOldest, if_pos (by omega)]
      exact ih

theorem popOldest_of_nonneg {maxRecords : ℤ} (hmax : 0 ≤ maxRecords) (records : List R) :
    popOldest maxRecords records = some (records.drop (excess maxRecords records)) := by
  induction records with
  | nil => rw [popOldest, if_neg (by omega), List.drop_nil]
  | cons record records ih =>
      rw [popOldest]
      by_cases hover : maxRecords < records.length + 1
      · have hexcess : excess maxRecords (record :: records) = excess maxRecords records + 1 := by
          simp only [excess, List.length_cons]
          omega
        rw [if_pos hover, ih, hexcess, List.drop_succ_cons]
      · have hexcess : excess maxRecords (record :: records) = 0 := by
          simp only [excess, List.length_cons]
          omega
        rw [if_neg hover, hexcess, List.drop_zero]

theorem olderFirst_total (createdAt : R → T) (a b : R) :
    (olderFirst createdAt a b || olderFirst createdAt b a) = true := by
  simp [olderFirst, le_total]

theorem olderFirst_trans (createdAt : R → T) (a b c : R) (hab : olderFirst createdAt a b = true)
    (hbc : olderFirst createdAt b c = true) : olderFirst createdAt a c = true := by
  simp only [olderFirst, decide_eq_true_eq] at hab hbc ⊢
  exact le_trans hab hbc

/-! ## What a full store loses -/

section
variable {createdAt : R → T} {maxRecords : ℤ} {records : List R}

theorem enforceBounds_of_neg (hneg : maxRecords < 0) :
    enforceBounds createdAt maxRecords records = none := by
  rw [enforceBounds, if_neg (by omega), popOldest_of_neg hneg]

/-- The oldest records go. -/
theorem enforceBounds_of_nonneg (hmax : 0 ≤ maxRecords) (hover : maxRecords < records.length) :
    enforceBounds createdAt maxRecords records =
      some ((records.mergeSort (olderFirst createdAt)).drop (excess maxRecords records)) := by
  rw [enforceBounds, if_neg (by omega), popOldest_of_nonneg hmax]
  simp only [excess, List.length_mergeSort]

/-- Removed and kept records, as the sort has them. -/
theorem oldest_before_rest (k : ℕ) :
    ∀ r ∈ (records.mergeSort (olderFirst createdAt)).take k,
      ∀ kept ∈ (records.mergeSort (olderFirst createdAt)).drop k,
        createdAt r ≤ createdAt kept := by
  intro r hr kept hkept
  have hsorted := List.pairwise_mergeSort (olderFirst_trans createdAt) (olderFirst_total createdAt)
    records
  rw [← List.take_append_drop k (records.mergeSort (olderFirst createdAt)),
    List.pairwise_append] at hsorted
  simpa only [olderFirst, decide_eq_true_eq] using hsorted.2.2 r hr kept hkept

/-- What was removed is what the sort has in front, whatever list it is written as. -/
theorem mem_removed_iff {removed : List R} {k : ℕ}
    (hparts : records ~ removed ++ (records.mergeSort (olderFirst createdAt)).drop k) (r : R) :
    r ∈ removed ↔ r ∈ (records.mergeSort (olderFirst createdAt)).take k := by
  have hsort := List.mergeSort_perm records (olderFirst createdAt)
  rw [← List.take_append_drop k (records.mergeSort (olderFirst createdAt))] at hsort
  exact ((List.perm_append_right_iff _).mp (hsort.trans hparts)).symm.mem_iff

/-- The order of the loop is the order of retirement exactly when the superseded records are
old enough. -/
theorem enforceBounds_retires_iff (superseded : R → Bool) (hover : maxRecords < records.length) :
    (∃ after, enforceBounds createdAt maxRecords records = some after ∧
      ∃ removed, RetiresSupersededFirst superseded createdAt maxRecords records after removed) ↔
      0 ≤ maxRecords ∧
        SupersededAmongOldest superseded createdAt (excess maxRecords records) records := by
  by_cases hmax : 0 ≤ maxRecords
  swap
  · rw [enforceBounds_of_neg (by omega)]
    simp [hmax]
  have htotal := olderFirst_total createdAt
  have htrans := olderFirst_trans createdAt
  rw [enforceBounds_of_nonneg hmax hover]
  constructor
  · rintro ⟨after, hafter, removed, hretires⟩
    obtain rfl := Option.some.inj hafter
    refine ⟨hmax, fun live hlive hstatus hage old hold hsuperseded => ?_⟩
    by_contra hyoung
    have hremoved : live.1 ∈ removed := (mem_removed_iff hretires.parts live.1).mpr
      ((mem_take_mergeSort htotal htrans).mpr ⟨live, hlive, hage, rfl⟩)
    have hkept := (mem_drop_mergeSort htotal htrans).mpr
      ⟨old, hold, Nat.le_of_not_lt hyoung, rfl⟩
    have hlast := hretires.liveLast live.1 hremoved hstatus old.1 hkept
    rw [hsuperseded] at hlast
    cases hlast
  · rintro ⟨_, hamong⟩
    refine ⟨_, rfl, (records.mergeSort (olderFirst createdAt)).take (excess maxRecords records),
      ?_, ?_, ?_, fun r hr kept hkept _ => oldest_before_rest _ r hr kept hkept⟩
    · rw [List.take_append_drop]
      exact (List.mergeSort_perm records _).symm
    · rw [List.length_drop, List.length_mergeSort, excess]
      omega
    · intro r hr hstatus kept hkept
      obtain ⟨live, hlive, hage, rfl⟩ := (mem_take_mergeSort htotal htrans).mp hr
      obtain ⟨old, hold, hyoung, rfl⟩ := (mem_drop_mergeSort htotal htrans).mp hkept
      by_contra hsuperseded
      exact absurd (hamong live hlive hstatus hage old hold (by simpa using hsuperseded))
        (Nat.not_lt.mpr hyoung)

end

end Memory
end CodeCub

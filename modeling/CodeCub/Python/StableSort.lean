import Mathlib.Data.Finset.Sort
import Mathlib.Data.List.Sort

/-!
# Places in a stable sort

`sorted` and `list.sort` keep equal elements in the order they stood in.  The place that an
element takes is the number of elements that go before it, which the unsorted list tells: so
what the first places of a sorted list hold is a matter of counting, not of sorting.
-/

namespace Python

open scoped List

variable {α : Type}

/-- `sorted` of a set. -/
def sortedSet [LinearOrder α] (elements : Finset α) : List α := elements.sort (· ≤ ·)

/-- The element at a place goes before another one: it is less, or equal and further in
front. -/
def goesBefore (le : α → α → Bool) (p q : α × ℕ) : Bool :=
  !le q.1 p.1 || (le p.1 q.1 && p.2 < q.2)

/-- How many elements of the list go before the one at the place. -/
def sortedPlace (le : α → α → Bool) (l : List α) (q : α × ℕ) : ℕ :=
  l.zipIdx.countP (goesBefore le · q)

/-! ## Lists in strict order -/

/-- In a list in strict order the place of an element is the number of smaller ones. -/
theorem take_eq_filter {lt : α → α → Bool} (hirrefl : ∀ a, lt a a = false)
    (hasymm : ∀ a b, lt a b = true → lt b a = false) :
    ∀ {s : List α}, s.Pairwise (fun a b => lt a b = true) → ∀ k,
      s.take k = s.filter (fun x => s.countP (lt · x) < k) ∧
        s.drop k = s.filter (fun x => k ≤ s.countP (lt · x)) := by
  intro s hs
  induction hs with
  | nil => simp
  | @cons a t ha ht ih =>
      intro k
      have hnone : t.countP (lt · a) = 0 :=
        List.countP_eq_zero.mpr fun b hb => by rw [hasymm a b (ha b hb)]; exact Bool.false_ne_true
      have hhead : (a :: t).countP (lt · a) = 0 := by
        rw [List.countP_cons, hnone, hirrefl]
        rfl
      have htail : ∀ x ∈ t, (a :: t).countP (lt · x) = t.countP (lt · x) + 1 := by
        intro x hx
        rw [List.countP_cons, if_pos (ha x hx)]
      cases k with
      | zero =>
          constructor
          · rw [List.take_zero, eq_comm, List.filter_eq_nil_iff]
            simp
          · rw [List.drop_zero, eq_comm, List.filter_eq_self]
            simp
      | succ k =>
          constructor
          · rw [List.take_succ_cons, List.filter_cons, hhead, if_pos (by simp), (ih k).1]
            congr 1
            refine List.filter_congr fun x hx => ?_
            rw [htail x hx]
            simp
          · rw [List.drop_succ_cons, List.filter_cons, hhead, if_neg (by simp), (ih k).2]
            refine List.filter_congr fun x hx => ?_
            rw [htail x hx]
            simp

/-! ## The sort -/

section
variable {le : α → α → Bool} (htotal : ∀ a b, (le a b || le b a) = true)
include htotal

theorem goesBefore_irrefl (p : α × ℕ) : goesBefore le p p = false := by
  have h := htotal p.1 p.1
  simp_all [goesBefore]

theorem goesBefore_asymm (p q : α × ℕ) (h : goesBefore le p q = true) :
    goesBefore le q p = false := by
  have hle := htotal p.1 q.1
  simp only [goesBefore, Bool.or_eq_true, Bool.not_eq_true', Bool.and_eq_true,
    decide_eq_true_eq, Bool.or_eq_false_iff, Bool.not_eq_false', Bool.and_eq_false_imp,
    decide_eq_false_iff_not] at h ⊢
  rcases h with h | ⟨h, hplace⟩
  · rw [h, Bool.or_false] at hle
    exact ⟨hle, fun hback => by rw [h] at hback; cases hback⟩
  · exact ⟨h, fun _ => by omega⟩

omit htotal in
theorem goesBefore_of_zipIdxLE {p q : α × ℕ} (h : List.zipIdxLE le p q = true)
    (hne : p.2 ≠ q.2) : goesBefore le p q = true := by
  rw [List.zipIdxLE] at h
  by_cases hpq : le p.1 q.1 = true
  · by_cases hqp : le q.1 p.1 = true
    · rw [if_pos hpq, if_pos hqp, decide_eq_true_eq] at h
      simp [goesBefore, hpq, hqp]
      omega
    · simp [goesBefore, hqp]
  · rw [if_neg hpq] at h
    cases h

omit htotal in
theorem nodup_places (l : List α) : (l.zipIdx.map Prod.snd).Nodup := by
  rw [List.zipIdx_map_snd]
  exact List.nodup_range'

variable (htrans : ∀ a b c, le a b = true → le b c = true → le a c = true)
include htrans

/-- The list with its places is sorted in strict order. -/
theorem pairwise_goesBefore (l : List α) :
    (l.zipIdx.mergeSort (List.zipIdxLE le)).Pairwise fun p q => goesBefore le p q = true := by
  have hperm := List.mergeSort_perm l.zipIdx (List.zipIdxLE le)
  have hsorted := List.pairwise_mergeSort (List.zipIdxLE_trans htrans)
    (List.zipIdxLE_total htotal) l.zipIdx
  have hplaces : ((l.zipIdx.mergeSort (List.zipIdxLE le)).map Prod.snd).Nodup :=
    (hperm.map Prod.snd).nodup_iff.mpr (nodup_places l)
  have hne := List.pairwise_map.mp hplaces
  exact (hsorted.and hne).imp fun h => goesBefore_of_zipIdxLE h.1 h.2

/-- The first elements of a sorted list are those with that many places before them. -/
theorem take_mergeSort_perm (l : List α) (k : ℕ) :
    (l.mergeSort le).take k ~ (l.zipIdx.filter (fun p => sortedPlace le l p < k)).map Prod.fst := by
  have hperm := List.mergeSort_perm l.zipIdx (List.zipIdxLE le)
  have htake := (take_eq_filter (goesBefore_irrefl htotal) (goesBefore_asymm htotal)
    (pairwise_goesBefore htotal htrans l) k).1
  rw [← List.mergeSort_zipIdx, ← List.map_take, htake]
  refine ((hperm.filter _).map Prod.fst).trans ?_
  rw [List.filter_congr fun p _ => by rw [hperm.countP_eq]]
  rfl

theorem drop_mergeSort_perm (l : List α) (k : ℕ) :
    (l.mergeSort le).drop k ~ (l.zipIdx.filter (fun p => k ≤ sortedPlace le l p)).map Prod.fst := by
  have hperm := List.mergeSort_perm l.zipIdx (List.zipIdxLE le)
  have hdrop := (take_eq_filter (goesBefore_irrefl htotal) (goesBefore_asymm htotal)
    (pairwise_goesBefore htotal htrans l) k).2
  rw [← List.mergeSort_zipIdx, ← List.map_drop, hdrop]
  refine ((hperm.filter _).map Prod.fst).trans ?_
  rw [List.filter_congr fun p _ => by rw [hperm.countP_eq]]
  rfl

theorem mem_take_mergeSort {l : List α} {k : ℕ} {a : α} :
    a ∈ (l.mergeSort le).take k ↔ ∃ p ∈ l.zipIdx, sortedPlace le l p < k ∧ p.1 = a := by
  rw [(take_mergeSort_perm htotal htrans l k).mem_iff]
  simp [and_assoc]

theorem mem_drop_mergeSort {l : List α} {k : ℕ} {a : α} :
    a ∈ (l.mergeSort le).drop k ↔ ∃ p ∈ l.zipIdx, k ≤ sortedPlace le l p ∧ p.1 = a := by
  rw [(drop_mergeSort_perm htotal htrans l k).mem_iff]
  simp [and_assoc]

end

end Python

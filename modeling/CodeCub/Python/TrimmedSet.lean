import CodeCub.Python.Find
import Mathlib.Data.Prod.Lex
import Mathlib.Data.List.Sort

/-!
# Sets that keep their greatest members

`seen.add(item)`, and beyond a limit `seen = set(sorted(seen)[-limit:])`.  Such a set may
drop the very member that was added.
-/

namespace Python

variable {α : Type} [LinearOrder α] {limit : Nat} {seen : List α} {item : α}

def ascending (seen : List α) : List α := seen.mergeSort fun a b => decide (a ≤ b)

/-- `set(sorted(seen)[-limit:])` where there are more than `limit`. -/
def trim (limit : Nat) (seen : List α) : List α :=
  if limit < seen.length then lastN limit (ascending seen) else seen

def remember (limit : Nat) (seen : List α) (item : α) : List α := trim limit (seen.insert item)

/-- A full set, all of whose members come after this one. -/
def Crowded (limit : Nat) (seen : List α) (item : α) : Prop :=
  seen.length = limit ∧ item ∉ seen ∧ ∀ other ∈ seen, item < other

theorem ascending_perm (seen : List α) : (ascending seen).Perm seen :=
  List.mergeSort_perm seen _

theorem ascending_pairwise (seen : List α) : (ascending seen).Pairwise (· ≤ ·) := by
  have hsorted := @List.pairwise_mergeSort α (fun a b => decide (a ≤ b))
    (fun a b c hab hbc => by
      rw [decide_eq_true_iff] at hab hbc ⊢
      exact hab.trans hbc)
    (fun a b => by
      rw [Bool.or_eq_true, decide_eq_true_iff, decide_eq_true_iff]
      exact le_total a b) seen
  exact hsorted.imp fun h => of_decide_eq_true h

theorem nodup_trim (h : seen.Nodup) : (trim limit seen).Nodup := by
  unfold trim
  split
  · exact ((ascending_perm seen).nodup_iff.mpr h).sublist (lastN_suffix _ _).sublist
  · exact h

theorem length_trim_le : (trim limit seen).length ≤ limit := by
  unfold trim
  split
  · rw [length_lastN]
    exact Nat.min_le_left _ _
  · omega

theorem length_remember_le : (remember limit seen item).length ≤ limit := length_trim_le

theorem nodup_remember (h : seen.Nodup) : (remember limit seen item).Nodup :=
  nodup_trim h.insert

/-- Below the limit nothing is dropped. -/
theorem foldl_remember_of_nodup {items : List α} (hnodup : (items.reverse ++ seen).Nodup)
    (hlength : items.length + seen.length ≤ limit) :
    items.foldl (remember limit) seen = items.reverse ++ seen := by
  induction items generalizing seen with
  | nil => rfl
  | cons item items ih =>
      rw [List.reverse_cons, List.append_assoc, List.singleton_append] at hnodup ⊢
      rw [List.length_cons] at hlength
      have hitem : item ∉ seen := (List.nodup_cons.mp (List.nodup_append.mp hnodup).2.1).1
      have hremember : remember limit seen item = item :: seen := by
        rw [remember, List.insert_of_not_mem hitem, trim, if_neg]
        rw [List.length_cons]
        omega
      rw [List.foldl_cons, hremember]
      exact ih hnodup (by rw [List.length_cons]; omega)

/-- One member too many: the least one goes. -/
theorem mem_trim_iff_of_length (hnodup : seen.Nodup) (hlength : seen.length = limit + 1)
    (hitem : item ∈ seen) : item ∈ trim limit seen ↔ ∃ other ∈ seen, other < item := by
  have hperm := ascending_perm seen
  have hsorted := ascending_pairwise seen
  unfold trim
  rw [if_pos (by omega), lastN, hperm.length_eq, hlength, Nat.add_sub_cancel_left, List.drop_one]
  cases hcase : ascending seen with
  | nil =>
      rw [hcase, List.nil_perm] at hperm
      rw [hperm] at hlength
      cases hlength
  | cons least rest =>
      rw [hcase] at hperm hsorted
      rw [List.pairwise_cons] at hsorted
      have hrest := (List.nodup_cons.mp (hperm.nodup_iff.mpr hnodup)).1
      rw [List.tail_cons]
      constructor
      · intro hmem
        refine ⟨least, hperm.mem_iff.mp List.mem_cons_self, lt_of_le_of_ne (hsorted.1 item hmem) ?_⟩
        rintro rfl
        exact hrest hmem
      · rintro ⟨other, hother, hlt⟩
        rcases List.mem_cons.mp (hperm.mem_iff.mpr hitem) with rfl | hmem
        · rcases List.mem_cons.mp (hperm.mem_iff.mpr hother) with rfl | hother
          · exact absurd hlt (lt_irrefl _)
          · exact absurd hlt (not_lt.mpr (hsorted.1 other hother))
        · exact hmem

/-- Only a crowded set drops the new member. -/
theorem mem_remember_iff (hnodup : seen.Nodup) (hlength : seen.length ≤ limit) :
    item ∈ remember limit seen item ↔ ¬ Crowded limit seen item := by
  unfold remember
  by_cases hold : item ∈ seen
  · rw [List.insert_of_mem hold, trim, if_neg (by omega)]
    exact iff_of_true hold fun h => h.2.1 hold
  rw [List.insert_of_not_mem hold]
  by_cases hfull : seen.length = limit
  · have hlong : (item :: seen).length = limit + 1 := by
      rw [List.length_cons, hfull]
    rw [mem_trim_iff_of_length (List.nodup_cons.mpr ⟨hold, hnodup⟩) hlong List.mem_cons_self]
    constructor
    · rintro ⟨other, hother, hlt⟩ ⟨-, -, hleast⟩
      rcases List.mem_cons.mp hother with rfl | hother
      · exact lt_irrefl _ hlt
      · exact lt_asymm hlt (hleast other hother)
    · intro h
      have hsome : ∃ other ∈ seen, ¬ item < other := by
        by_contra hnone
        exact h ⟨hfull, hold, fun other hother => by
          by_contra hlt
          exact hnone ⟨other, hother, hlt⟩⟩
      obtain ⟨other, hother, hnot⟩ := hsome
      refine ⟨other, List.mem_cons_of_mem _ hother, lt_of_le_of_ne (not_lt.mp hnot) ?_⟩
      rintro rfl
      exact hold hother
  · have hshort : ¬ limit < (item :: seen).length := by
      rw [List.length_cons]
      omega
    rw [trim, if_neg hshort]
    exact iff_of_true List.mem_cons_self fun h => hfull h.1

end Python

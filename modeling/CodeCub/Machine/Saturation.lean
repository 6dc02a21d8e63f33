import Mathlib.Data.Finset.Card

/-!
# Passes until nothing changes

A pass over a finite set that only adds elements, and only elements of a fixed stock, is
repeated until it adds nothing.
-/

namespace Saturation

variable {α : Type*} [DecidableEq α]

structure Pass (α : Type*) [DecidableEq α] where
  apply : Finset α → Finset α
  stock : Finset α
  subset_apply : ∀ s, s ⊆ apply s
  apply_subset : ∀ s, apply s ⊆ s ∪ stock

/-- A pass that changes something leaves less of the stock to add. -/
theorem Pass.missing_lt (pass : Pass α) {s : Finset α} (h : pass.apply s ≠ s) :
    (pass.stock \ pass.apply s).card < (pass.stock \ s).card := by
  obtain ⟨x, hx, hnew⟩ : ∃ x ∈ pass.apply s, x ∉ s := by
    by_contra hall
    push Not at hall
    exact h (Finset.Subset.antisymm hall (pass.subset_apply s))
  have hstock : x ∈ pass.stock := (Finset.mem_union.mp (pass.apply_subset s hx)).resolve_left hnew
  refine Finset.card_lt_card (Finset.ssubset_iff_of_subset ?_ |>.mpr ⟨x, ?_, ?_⟩)
  · exact Finset.sdiff_subset_sdiff (Finset.Subset.refl _) (pass.subset_apply s)
  · exact Finset.mem_sdiff.mpr ⟨hstock, hnew⟩
  · exact fun hmissing => (Finset.mem_sdiff.mp hmissing).2 hx

def saturate (pass : Pass α) (s : Finset α) : Finset α :=
  if pass.apply s = s then s else saturate pass (pass.apply s)
termination_by (pass.stock \ s).card
decreasing_by exact pass.missing_lt (by assumption)

variable (pass : Pass α)

theorem subset_saturate (s : Finset α) : s ⊆ saturate pass s := by
  fun_induction saturate pass s with
  | case1 s h => exact Finset.Subset.refl s
  | case2 s h ih => exact (pass.subset_apply s).trans ih

theorem apply_saturate (s : Finset α) : pass.apply (saturate pass s) = saturate pass s := by
  fun_induction saturate pass s with
  | case1 s h => exact h
  | case2 s h ih => exact ih

theorem saturate_subset (s : Finset α) : saturate pass s ⊆ s ∪ pass.stock := by
  fun_induction saturate pass s with
  | case1 s h => exact Finset.subset_union_left
  | case2 s h ih =>
      exact ih.trans (Finset.union_subset (pass.apply_subset s) Finset.subset_union_right)

/-! ## Passes through a list -/

section

variable {α β : Type*} {f : Finset α → β → Finset α}

theorem subset_foldl (h : ∀ s b, s ⊆ f s b) (l : List β) (s : Finset α) : s ⊆ l.foldl f s := by
  induction l generalizing s with
  | nil => exact Finset.Subset.refl s
  | cons b l ih => exact (h s b).trans (ih (f s b))

/-- A pass that changes nothing changes nothing at any of its elements. -/
theorem eq_self_of_foldl (h : ∀ s b, s ⊆ f s b) {l : List β} {s : Finset α}
    (hfixed : l.foldl f s = s) : ∀ b ∈ l, f s b = s := by
  induction l generalizing s with
  | nil =>
      intro b hb
      cases hb
  | cons b l ih =>
      have hhere : f s b = s := by
        refine Finset.Subset.antisymm ?_ (h s b)
        have hrest := subset_foldl h l (f s b)
        rw [List.foldl_cons] at hfixed
        rwa [hfixed] at hrest
      rw [List.foldl_cons, hhere] at hfixed
      intro c hc
      obtain rfl | hc := List.mem_cons.mp hc
      · exact hhere
      · exact ih hfixed c hc

theorem foldl_subset [DecidableEq α] {stock : Finset α} {l : List β}
    (h : ∀ b ∈ l, ∀ s, f s b ⊆ s ∪ stock) (s : Finset α) : l.foldl f s ⊆ s ∪ stock := by
  induction l generalizing s with
  | nil => exact Finset.subset_union_left
  | cons b l ih =>
      have hrest := ih (fun b hb => h b (List.mem_cons_of_mem _ hb)) (f s b)
      exact hrest.trans (Finset.union_subset (h b List.mem_cons_self s) Finset.subset_union_right)

end

end Saturation

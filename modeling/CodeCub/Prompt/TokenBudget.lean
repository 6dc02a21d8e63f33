import CodeCub.Python.Json
import CodeCub.Python.Str

/-!
# Texts within a budget

`clip_to_budget` of `codecub/token_budget.py` looks for a prefix by bisection, whatever the
token counter answers; without a counter `_tail_clip` of `codecub/context_manager.py` counts
characters.
-/

namespace CodeCub
namespace Prompt

open Python

/-- `count` of a token counter. -/
abbrev Counter := Str → Int

def ellipsis : Str := "...".toList

/-- `_tail_clip`. -/
def tailClip (text : Str) (limit : Int) : Str :=
  if limit ≤ 0 then []
  else if (text.length : Int) ≤ limit then text
  else if limit ≤ 3 then text.take limit.toNat
  else text.take (limit - 3).toNat ++ ellipsis

/-- The bisection of `clip_to_budget`; `stop` is `high + 1`. -/
def bisect (count : Counter) (text : Str) (budget : Int) (low stop : Nat) (best : Str) : Str :=
  if low < stop then
    let middle := (low + (stop - 1)) / 2
    let candidate := text.take middle ++ ellipsis
    if count candidate ≤ budget then bisect count text budget (middle + 1) stop candidate
    else bisect count text budget low middle best
  else best
termination_by stop - low

def clipToBudget (text : Str) (budget : Int) (counter : Option Counter) : Str :=
  if budget ≤ 0 then []
  else
    match counter with
    | none => text
    | some count =>
        if count text ≤ budget then text
        else bisect count text budget 0 (text.length + 1) []

/-- `_measure`. -/
def measure (counter : Option Counter) (text : Str) : Int :=
  match counter with
  | some count => count text
  | none => text.length

/-- `_clip`. -/
def clip (counter : Option Counter) (text : Str) (budget : Int) : Str :=
  match counter with
  | some count => clipToBudget text budget (some count)
  | none => tailClip text budget

/-- `resolve_prompt_budget`; a missing window and one of no tokens count as none. -/
def resolvePromptBudget (contextWindow : Option Int) (maxNewTokens safetyMarginTokens : Int) :
    Option Int :=
  match contextWindow with
  | none => none
  | some window =>
      if window = 0 then none else some (max 0 (window - maxNewTokens - safetyMarginTokens))

/-! ## What is clipped fits -/

variable {count : Counter} {text best : Str} {budget limit : Int} {low stop : Nat}

theorem bisect_fits (hbest : best = [] ∨ count best ≤ budget) :
    bisect count text budget low stop best = [] ∨
      count (bisect count text budget low stop best) ≤ budget := by
  induction hmeasure : stop - low using Nat.strong_induction_on generalizing low stop best with
  | h size ih =>
      unfold bisect
      split
      · next hlt =>
          dsimp only
          split
          · next hfits => exact ih _ (by omega) (Or.inr hfits) rfl
          · exact ih _ (by omega) hbest rfl
      · exact hbest

theorem clipToBudget_fits :
    clipToBudget text budget (some count) = [] ∨
      count (clipToBudget text budget (some count)) ≤ budget := by
  unfold clipToBudget
  split
  · exact Or.inl rfl
  · dsimp only
    split
    · next hfits => exact Or.inr hfits
    · exact bisect_fits (Or.inl rfl)

theorem length_tailClip_le (hlimit : 0 ≤ limit) : ((tailClip text limit).length : Int) ≤ limit := by
  unfold tailClip
  split
  · exact hlimit
  · split
    · assumption
    · split
      · rw [List.length_take]
        omega
      · rw [List.length_append, List.length_take, show ellipsis.length = 3 from rfl]
        omega

/-- A clipped text is empty or measures at most its budget, for every counter. -/
theorem clip_fits (counter : Option Counter) (hbudget : 0 ≤ budget) :
    clip counter text budget = [] ∨ measure counter (clip counter text budget) ≤ budget := by
  cases counter with
  | some count => exact clipToBudget_fits
  | none => exact Or.inr (length_tailClip_le hbudget)

end Prompt
end CodeCub

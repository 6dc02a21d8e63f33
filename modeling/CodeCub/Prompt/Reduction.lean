import CodeCub.Python.JsonEq
import Mathlib.Algebra.GroupWithZero.Nat
import Mathlib.Algebra.Order.BigOperators.Group.List

/-!
# Reducing budgets until something fits

The loop of `ContextManager.build` lowers one budget at a time by what the prompt is over its
bound, and renders everything anew.  What the prompt measures after that is any function of
the budgets here, so that nothing depends on how the sections are rendered or counted.
-/

namespace CodeCub
namespace Prompt

open Python

abbrev Budgets := List (String × Int)

/-- `int(budgets.get(section, 0))`. -/
def Budgets.of (budgets : Budgets) (name : String) : Int := (budgets.lookup name).getD 0

/-- An entry of the reduction log. -/
structure Reduction where
  name : String
  before : Int
  after : Int
  overflow : Int
  deriving DecidableEq, Repr

variable {floors budgets : Budgets} {order : List String} {surplus : Budgets → Int}

/-- The first section of the order that can still shrink. -/
def pick (floors budgets : Budgets) (overflow : Int) : List String → Option Reduction
  | [] => none
  | name :: rest =>
      let floor := floors.of name
      let current := budgets.of name
      let new := max floor (current - overflow)
      if current ≤ floor then pick floors budgets overflow rest
      else if current ≤ new then pick floors budgets overflow rest
      else some ⟨name, current, new, overflow⟩

def Reduction.apply (budgets : Budgets) (r : Reduction) : Budgets := assign r.name r.after budgets

/-- How much all the sections of the order have above their floors. -/
def excess (order : List String) (floors budgets : Budgets) : Nat :=
  (order.map fun name => (budgets.of name - floors.of name).toNat).sum

theorem of_apply (budgets : Budgets) (r : Reduction) (name : String) :
    (r.apply budgets).of name = if name = r.name then r.after else budgets.of name := by
  unfold Reduction.apply Budgets.of
  rw [lookup_assign]
  split
  · rfl
  · rfl

/-- What one step of the loop does. -/
structure Reduction.Steps (floors budgets : Budgets) (r : Reduction) : Prop where
  before : budgets.of r.name = r.before
  floor : floors.of r.name ≤ r.after
  smaller : r.after < r.before

theorem steps_of_pick {overflow : Int} {r : Reduction} (h : pick floors budgets overflow order = some r) :
    r.Steps floors budgets ∧ r.name ∈ order := by
  induction order with
  | nil => cases h
  | cons name rest ih =>
      unfold pick at h
      dsimp only at h
      split at h
      · exact ⟨(ih h).1, List.mem_cons_of_mem _ (ih h).2⟩
      · split at h
        · exact ⟨(ih h).1, List.mem_cons_of_mem _ (ih h).2⟩
        · next hsmaller =>
            cases h
            exact ⟨⟨rfl, le_max_left _ _, not_le.mp hsmaller⟩, List.mem_cons_self⟩

/-- With something to take away, only sections at their floors are passed over. -/
theorem le_floor_of_pick {overflow : Int} (hoverflow : 0 < overflow)
    (h : pick floors budgets overflow order = none) :
    ∀ name ∈ order, budgets.of name ≤ floors.of name := by
  induction order with
  | nil => exact fun name hname => absurd hname List.not_mem_nil
  | cons name rest ih =>
      unfold pick at h
      dsimp only at h
      split at h
      · next hfloor => exact List.forall_mem_cons.mpr ⟨hfloor, ih h⟩
      · split at h
        · omega
        · cases h

theorem Reduction.Steps.excess_lt {r : Reduction} (h : r.Steps floors budgets) (hmem : r.name ∈ order) :
    excess order floors (r.apply budgets) < excess order floors budgets := by
  have hbefore := h.before
  have hfloor := h.floor
  have hsmaller := h.smaller
  apply List.sum_lt_sum
  · intro name _
    rw [of_apply]
    split
    · next hsame =>
        rw [hsame]
        omega
    · exact le_rfl
  · refine ⟨r.name, hmem, ?_⟩
    rw [of_apply, if_pos rfl]
    omega

/-- The loop; `over` is what the prompt rendered with these budgets is over its bound. -/
def reduce (order : List String) (floors : Budgets) (surplus : Budgets → Int) (budgets : Budgets) :
    Budgets × List Reduction :=
  if 0 < surplus budgets then
    match _hpick : pick floors budgets (surplus budgets) order with
    | none => (budgets, [])
    | some r =>
        let ended := reduce order floors surplus (r.apply budgets)
        (ended.1, r :: ended.2)
  else (budgets, [])
termination_by excess order floors budgets
decreasing_by exact (steps_of_pick _hpick).1.excess_lt (steps_of_pick _hpick).2

/-! ## Runs of the loop -/

/-- The budgets after these entries of the log. -/
def replay (budgets : Budgets) (log : List Reduction) : Budgets :=
  log.foldl Reduction.apply budgets

/-- No budget grows, and none that is above its floor falls below it. -/
def Shrinks (floors earlier later : Budgets) : Prop :=
  ∀ name, later.of name ≤ earlier.of name ∧
    (floors.of name ≤ earlier.of name → floors.of name ≤ later.of name)

theorem Shrinks.refl (floors budgets : Budgets) : Shrinks floors budgets budgets :=
  fun _ => ⟨le_rfl, id⟩

theorem Shrinks.trans {earlier later last : Budgets} (h : Shrinks floors earlier later)
    (h' : Shrinks floors later last) : Shrinks floors earlier last :=
  fun name => ⟨(h' name).1.trans (h name).1, fun hfloor => (h' name).2 ((h name).2 hfloor)⟩

theorem Reduction.Steps.shrinks {r : Reduction} (h : r.Steps floors budgets) :
    Shrinks floors budgets (r.apply budgets) := by
  have hbefore := h.before
  have hfloor := h.floor
  have hsmaller := h.smaller
  intro name
  rw [of_apply]
  split
  · next hsame =>
      rw [hsame]
      omega
  · exact ⟨le_rfl, id⟩

/-- A log, each entry of which is a step from the budgets that the ones before it left. -/
inductive Logged (floors : Budgets) : Budgets → List Reduction → Prop
  | nil (budgets : Budgets) : Logged floors budgets []
  | cons {budgets : Budgets} {r : Reduction} {log : List Reduction} (step : r.Steps floors budgets)
      (rest : Logged floors (r.apply budgets) log) : Logged floors budgets (r :: log)

theorem Logged.shrinks {log : List Reduction} (h : Logged floors budgets log) :
    Shrinks floors budgets (replay budgets log) := by
  induction h with
  | nil budgets => exact Shrinks.refl floors budgets
  | cons step rest ih => exact step.shrinks.trans ih

theorem Logged.drop {earlier later : List Reduction} (h : Logged floors budgets (earlier ++ later)) :
    Logged floors (replay budgets earlier) later := by
  induction earlier generalizing budgets with
  | nil => exact h
  | cons r earlier ih =>
      cases h with
      | cons step rest => exact ih rest

theorem Logged.take {earlier later : List Reduction} (h : Logged floors budgets (earlier ++ later)) :
    Logged floors budgets earlier := by
  induction earlier generalizing budgets with
  | nil => exact Logged.nil budgets
  | cons r earlier ih =>
      cases h with
      | cons step rest => exact Logged.cons step (ih rest)

/-- Between any two moments of the loop the budgets shrink. -/
theorem Logged.shrinks_between {earlier between later : List Reduction}
    (h : Logged floors budgets (earlier ++ between ++ later)) :
    Shrinks floors (replay budgets earlier) (replay budgets (earlier ++ between)) := by
  have hshrinks := h.take.drop.shrinks
  rw [replay, replay, List.foldl_append]
  exact hshrinks

theorem reduce_of_fits (h : ¬ 0 < surplus budgets) :
    reduce order floors surplus budgets = (budgets, []) := by
  rw [reduce, if_neg h]

theorem reduce_of_none (h : 0 < surplus budgets)
    (hpick : pick floors budgets (surplus budgets) order = none) :
    reduce order floors surplus budgets = (budgets, []) := by
  rw [reduce, if_pos h]
  split
  · rfl
  · next hsome =>
      rw [hpick] at hsome
      cases hsome

theorem reduce_of_some {r : Reduction} (h : 0 < surplus budgets)
    (hpick : pick floors budgets (surplus budgets) order = some r) :
    reduce order floors surplus budgets =
      ((reduce order floors surplus (r.apply budgets)).1,
        r :: (reduce order floors surplus (r.apply budgets)).2) := by
  rw [reduce, if_pos h]
  split
  · next hnone =>
      rw [hpick] at hnone
      cases hnone
  · next r' hsome =>
      rw [hpick] at hsome
      obtain rfl := Option.some.inj hsome
      rfl

theorem reduce_logged (order : List String) (floors : Budgets) (surplus : Budgets → Int)
    (budgets : Budgets) :
    Logged floors budgets (reduce order floors surplus budgets).2 ∧
      (reduce order floors surplus budgets).1 =
        replay budgets (reduce order floors surplus budgets).2 := by
  induction budgets using reduce.induct order floors surplus with
  | case1 budgets hover hpick =>
      rw [reduce_of_none hover hpick]
      exact ⟨Logged.nil budgets, rfl⟩
  | case2 budgets hover r hpick ih =>
      rw [reduce_of_some hover hpick]
      exact ⟨Logged.cons (steps_of_pick hpick).1 ih.1, ih.2⟩
  | case3 budgets hfits =>
      rw [reduce_of_fits hfits]
      exact ⟨Logged.nil budgets, rfl⟩

/-- The loop stops where the prompt fits or no section of the order can shrink. -/
theorem reduce_ends (order : List String) (floors : Budgets) (surplus : Budgets → Int)
    (budgets : Budgets) :
    surplus (reduce order floors surplus budgets).1 ≤ 0 ∨
      ∀ name ∈ order, (reduce order floors surplus budgets).1.of name ≤ floors.of name := by
  induction budgets using reduce.induct order floors surplus with
  | case1 budgets hover hpick =>
      rw [reduce_of_none hover hpick]
      exact Or.inr (le_floor_of_pick hover hpick)
  | case2 budgets hover r hpick ih =>
      rw [reduce_of_some hover hpick]
      exact ih
  | case3 budgets hfits =>
      rw [reduce_of_fits hfits]
      exact Or.inl (not_lt.mp hfits)

/-- How many times the prompt is rendered anew. -/
theorem length_reduce_le (order : List String) (floors : Budgets) (surplus : Budgets → Int)
    (budgets : Budgets) :
    (reduce order floors surplus budgets).2.length ≤ excess order floors budgets := by
  induction budgets using reduce.induct order floors surplus with
  | case1 budgets hover hpick =>
      rw [reduce_of_none hover hpick]
      exact Nat.zero_le _
  | case2 budgets hover r hpick ih =>
      have hlt := (steps_of_pick hpick).1.excess_lt (steps_of_pick hpick).2
      rw [reduce_of_some hover hpick, List.length_cons]
      omega
  | case3 budgets hfits =>
      rw [reduce_of_fits hfits]
      exact Nat.zero_le _

end Prompt
end CodeCub

import Mathlib.Order.WellFoundedSet

/-!
# Forests by parent pointers

Every element has at most one parent.  Walking up follows the parents, walking down keeps a
stack of elements to visit, and neither remembers where it was: both end, without meeting an
element twice, as long as no element is its own ancestor.
-/

namespace Forest

open Relation

variable {α : Type}

/-- The second element is the parent of the first one. -/
def Up (parent : α → Option α) (a b : α) : Prop := parent a = some b

def Acyclic (parent : α → Option α) : Prop := ∀ a, ¬ TransGen (Up parent) a a

/-- The second element is a child of the first one. -/
def Down (children : α → List α) (p c : α) : Prop := c ∈ children p

/-- The ancestors of an element, the parent first. -/
def climb (parent : α → Option α) : ℕ → α → Option (List α)
  | 0, _ => none
  | fuel + 1, a =>
      match parent a with
      | none => some []
      | some p => (climb parent fuel p).map (p :: ·)

/-- A walk down from the elements on the stack, its top first. -/
def walk (children : α → List α) : ℕ → List α → List α → Option (List α)
  | _, [], out => some out
  | 0, _ :: _, _ => none
  | fuel + 1, a :: stack, out => walk children fuel ((children a).reverse ++ stack) (out ++ [a])

/-! ## Walking up -/

section
variable {parent : α → Option α}

theorem climb_succ_of_some {a p : α} (h : parent a = some p) (fuel : ℕ) :
    climb parent (fuel + 1) a = (climb parent fuel p).map (p :: ·) := by
  rw [climb, h]

theorem climb_succ_of_none {a : α} (h : parent a = none) (fuel : ℕ) :
    climb parent (fuel + 1) a = some [] := by
  rw [climb, h]

theorem above_of_mem_climb {fuel : ℕ} {a : α} {l : List α} (h : climb parent fuel a = some l) :
    ∀ b ∈ l, TransGen (Up parent) a b := by
  induction fuel generalizing a l with
  | zero => cases h
  | succ fuel ih =>
      cases hparent : parent a with
      | none =>
          rw [climb_succ_of_none hparent] at h
          obtain rfl := Option.some.inj h
          exact fun b hb => absurd hb List.not_mem_nil
      | some p =>
          rw [climb_succ_of_some hparent] at h
          obtain ⟨rest, hrest, rfl⟩ := Option.map_eq_some_iff.mp h
          intro b hb
          rcases List.mem_cons.mp hb with rfl | hb
          · exact TransGen.single hparent
          · exact TransGen.head hparent (ih hrest b hb)

/-- Without cycles no ancestor comes twice. -/
theorem nodup_climb (hacyclic : Acyclic parent) {fuel : ℕ} {a : α} {l : List α}
    (h : climb parent fuel a = some l) : l.Nodup := by
  induction fuel generalizing a l with
  | zero => cases h
  | succ fuel ih =>
      cases hparent : parent a with
      | none =>
          rw [climb_succ_of_none hparent] at h
          obtain rfl := Option.some.inj h
          exact List.nodup_nil
      | some p =>
          rw [climb_succ_of_some hparent] at h
          obtain ⟨rest, hrest, rfl⟩ := Option.map_eq_some_iff.mp h
          exact List.nodup_cons.mpr
            ⟨fun hmem => hacyclic p (above_of_mem_climb hrest p hmem), ih hrest⟩

/-- A walk up that ends also ends from each ancestor, and sooner. -/
theorem climb_from_above {a b : α} (h : TransGen (Up parent) a b) {fuel : ℕ}
    (hends : (climb parent fuel a).isSome) :
    ∃ fuel' < fuel, (climb parent fuel' b).isSome := by
  induction h with
  | single hup =>
      cases fuel with
      | zero => cases hends
      | succ fuel =>
          rw [climb_succ_of_some hup, Option.isSome_map] at hends
          exact ⟨fuel, Nat.lt_succ_self fuel, hends⟩
  | tail _ hup ih =>
      obtain ⟨fuel', hlt, hends'⟩ := ih
      cases fuel' with
      | zero => cases hends'
      | succ fuel' =>
          rw [climb_succ_of_some hup, Option.isSome_map] at hends'
          exact ⟨fuel', by omega, hends'⟩

/-- From an element of a cycle the walk up does not end. -/
theorem climb_of_cycle {a : α} (h : TransGen (Up parent) a a) (fuel : ℕ) :
    climb parent fuel a = none := by
  induction fuel using Nat.strong_induction_on with
  | _ fuel ih =>
      by_contra hends
      obtain ⟨fuel', hlt, hends'⟩ := climb_from_above h (Option.isSome_iff_ne_none.mpr hends)
      rw [ih fuel' hlt] at hends'
      cases hends'

/-- With finitely many parents, going up is well-founded. -/
theorem wellFounded_up (hacyclic : Acyclic parent) (hfinite : {a | (parent a).isSome}.Finite) :
    WellFounded fun b a => Up parent a b := by
  have htrans : IsTrans α fun b a => TransGen (Up parent) a b :=
    ⟨fun _ _ _ hab hbc => hbc.trans hab⟩
  have hirrefl : Std.Irrefl fun b a : α => TransGen (Up parent) a b := ⟨hacyclic⟩
  have horder : IsStrictOrder α fun b a => TransGen (Up parent) a b := {}
  have hwf := hfinite.wellFoundedOn (r := fun b a => TransGen (Up parent) a b)
  have htop : ∀ a, ¬ (parent a).isSome → Acc (fun b a => Up parent a b) a := by
    intro a hnone
    refine Acc.intro a fun b hup => absurd ?_ hnone
    rw [hup]
    rfl
  refine WellFounded.intro fun a => ?_
  by_cases hsome : (parent a).isSome
  · refine hwf.induction hsome fun x _ ih => Acc.intro x fun b hup => ?_
    by_cases hb : (parent b).isSome
    · exact ih b hb (TransGen.single hup)
    · exact htop b hb
  · exact htop a hsome

theorem exists_climb (hwf : WellFounded fun b a => Up parent a b) (a : α) :
    ∃ fuel l, climb parent fuel a = some l := by
  induction a using hwf.induction with
  | _ a ih =>
      cases hparent : parent a with
      | none => exact ⟨1, [], climb_succ_of_none hparent 0⟩
      | some p =>
          obtain ⟨fuel, l, hl⟩ := ih p hparent
          exact ⟨fuel + 1, p :: l, by rw [climb_succ_of_some hparent, hl]; rfl⟩

end

/-! ## Walking down -/

section
variable {parent : α → Option α} {children : α → List α}

/-- The lists of the children, without repetitions, go with the parents. -/
structure Lists (parent : α → Option α) (children : α → List α) (ids : List α) : Prop where
  up : ∀ p c, c ∈ children p → parent c = some p
  nodup : ∀ p, (children p).Nodup
  known : ∀ p c, c ∈ children p → c ∈ ids

/-- What a walk from the children of an element has met: what is on the stack and what is
done.  A parent is done before its children come on the stack. -/
structure Underway (parent : α → Option α) (children : α → List α) (start : α)
    (stack out : List α) : Prop where
  nodup : (stack ++ out).Nodup
  below : ∀ x ∈ stack ++ out, TransGen (Down children) start x
  parents : ∀ x ∈ stack ++ out, ∀ p, parent x = some p → p = start ∨ p ∈ out
  closed : ∀ p, p = start ∨ p ∈ out → ∀ c ∈ children p, c ∈ stack ++ out

variable {ids : List α} (hlists : Lists parent children ids)
include hlists

theorem up_of_down {a b : α} (h : TransGen (Down children) a b) : TransGen (Up parent) b a := by
  induction h with
  | single hdown => exact TransGen.single (hlists.up _ _ hdown)
  | tail _ hdown ih => exact TransGen.head (hlists.up _ _ hdown) ih

theorem known_of_down {a b : α} (h : TransGen (Down children) a b) : b ∈ ids := by
  cases h with
  | single hdown => exact hlists.known _ _ hdown
  | tail _ hdown => exact hlists.known _ _ hdown

variable (hacyclic : Acyclic parent)

theorem underway_start (start : α) :
    Underway parent children start (children start).reverse [] where
  nodup := by
    rw [List.append_nil, List.nodup_reverse]
    exact hlists.nodup start
  below := by
    intro x hx
    rw [List.append_nil, List.mem_reverse] at hx
    exact TransGen.single hx
  parents := by
    intro x hx p hp
    rw [List.append_nil, List.mem_reverse] at hx
    rw [hlists.up start x hx] at hp
    exact Or.inl (Option.some.inj hp).symm
  closed := by
    intro p hp c hc
    rcases hp with rfl | hp
    · exact List.mem_append_left _ (List.mem_reverse.mpr hc)
    · exact absurd hp List.not_mem_nil

include hacyclic

/-- No child of the top of the stack was met. -/
theorem fresh_children {start a : α} {stack out : List α}
    (h : Underway parent children start (a :: stack) out) :
    ∀ c ∈ children a, c ∉ a :: stack ++ out := by
  intro c hc hmet
  rcases h.parents c hmet a (hlists.up a c hc) with rfl | hout
  · exact hacyclic a (up_of_down hlists (h.below a List.mem_cons_self))
  · have hnodup := h.nodup
    rw [List.cons_append, List.nodup_cons] at hnodup
    exact hnodup.1 (List.mem_append_right _ hout)

theorem underway_step {start a : α} {stack out : List α}
    (h : Underway parent children start (a :: stack) out) :
    Underway parent children start ((children a).reverse ++ stack) (out ++ [a]) := by
  have hmem : ∀ x, x ∈ (children a).reverse ++ stack ++ (out ++ [a]) ↔
      x ∈ children a ∨ x ∈ a :: stack ++ out := by
    intro x
    simp only [List.mem_append, List.mem_reverse, List.mem_cons, List.not_mem_nil, or_false]
    tauto
  refine ⟨?_, fun x hx => ?_, fun x hx p hp => ?_, fun p hp c hc => ?_⟩
  · have hperm : ((children a).reverse ++ stack ++ (out ++ [a])).Perm
        (children a ++ (a :: stack ++ out)) := by
      rw [List.append_assoc]
      refine (List.reverse_perm _).append ?_
      rw [← List.append_assoc, List.cons_append]
      exact List.perm_append_singleton _ _
    refine hperm.nodup_iff.mpr (List.nodup_append.mpr ⟨hlists.nodup a, h.nodup, ?_⟩)
    rintro c hc x hx rfl
    exact fresh_children hlists hacyclic h c hc hx
  · rcases (hmem x).mp hx with hx | hx
    · exact TransGen.tail (h.below a List.mem_cons_self) hx
    · exact h.below x hx
  · rcases (hmem x).mp hx with hx | hx
    · rw [hlists.up a x hx] at hp
      rw [← Option.some.inj hp]
      exact Or.inr (List.mem_append_right _ (List.mem_singleton_self a))
    · exact (h.parents x hx p hp).imp id fun hout => List.mem_append_left _ hout
  · refine (hmem c).mpr ?_
    rcases hp with rfl | hp
    · exact Or.inr (h.closed p (Or.inl rfl) c hc)
    · rcases List.mem_append.mp hp with hp | hp
      · exact Or.inr (h.closed p (Or.inr hp) c hc)
      · rw [List.mem_singleton.mp hp] at hc
        exact Or.inl hc

omit hlists hacyclic in
theorem walk_nil (fuel : ℕ) (out : List α) : walk children fuel [] out = some out := by
  cases fuel <;> rfl

omit hlists hacyclic in
/-- With an empty stack all that is below the start was met. -/
theorem underway_done {start : α} {out : List α} (h : Underway parent children start [] out) :
    out.Nodup ∧ ∀ x, x ∈ out ↔ TransGen (Down children) start x := by
  refine ⟨h.nodup, fun x => ⟨h.below x, fun hdown => ?_⟩⟩
  induction hdown with
  | single hdown => exact h.closed _ (Or.inl rfl) _ hdown
  | tail _ hdown ih => exact h.closed _ (Or.inr ih) _ hdown

/-- A walk that ends has met each element below its start once. -/
theorem walk_some {start : α} {fuel : ℕ} {stack out result : List α}
    (h : Underway parent children start stack out)
    (hwalk : walk children fuel stack out = some result) :
    result.Nodup ∧ ∀ x, x ∈ result ↔ TransGen (Down children) start x := by
  induction fuel generalizing stack out with
  | zero =>
      cases stack with
      | nil =>
          obtain rfl := Option.some.inj hwalk
          exact underway_done h
      | cons a stack => cases hwalk
  | succ fuel ih =>
      cases stack with
      | nil =>
          rw [walk_nil] at hwalk
          obtain rfl := Option.some.inj hwalk
          exact underway_done h
      | cons a stack => exact ih (underway_step hlists hacyclic h) hwalk

/-- A walk ends: each step does one more of the known elements. -/
theorem exists_walk {start : α} {fuel : ℕ} {stack out : List α}
    (h : Underway parent children start stack out) (hfuel : ids.length ≤ fuel + out.length) :
    ∃ result, walk children fuel stack out = some result := by
  induction fuel generalizing stack out with
  | zero =>
      cases stack with
      | nil => exact ⟨out, rfl⟩
      | cons a stack =>
          have hsub : (a :: stack ++ out).Subperm ids := h.nodup.subperm fun x hx =>
            known_of_down hlists (h.below x hx)
          have hlength := hsub.length_le
          rw [List.length_append, List.length_cons] at hlength
          omega
  | succ fuel ih =>
      cases stack with
      | nil => exact ⟨out, walk_nil _ out⟩
      | cons a stack =>
          refine ih (underway_step hlists hacyclic h) ?_
          rw [List.length_append, List.length_singleton]
          omega

end

/-! ## Tops -/

section
variable {parent : α → Option α} {children : α → List α}

/-- An element that is nobody's child. -/
def Top (children : α → List α) (t : α) : Prop := ∀ p, t ∉ children p

/-- Every element is below a top, or one itself. -/
theorem exists_top (hup : ∀ p c, c ∈ children p → parent c = some p)
    (hwf : WellFounded fun b a => Up parent a b) (x : α) :
    ∃ t, Top children t ∧ ReflTransGen (Down children) t x := by
  induction x using hwf.induction with
  | _ x ih =>
      by_cases htop : Top children x
      · exact ⟨x, htop, ReflTransGen.refl⟩
      · simp only [Top, not_forall, not_not] at htop
        obtain ⟨p, hp⟩ := htop
        obtain ⟨t, ht, hdown⟩ := ih p (hup p x hp)
        exact ⟨t, ht, hdown.tail hp⟩

theorem eq_of_top {a t : α} (ht : Top children t) (h : ReflTransGen (Down children) a t) :
    a = t := by
  cases h with
  | refl => rfl
  | tail _ hdown => exact absurd hdown (ht _)

/-- An element is below one top only. -/
theorem top_unique (hup : ∀ p c, c ∈ children p → parent c = some p) {t t' x : α}
    (ht : Top children t) (ht' : Top children t') (h : ReflTransGen (Down children) t x)
    (h' : ReflTransGen (Down children) t' x) : t = t' := by
  induction h with
  | refl => exact (eq_of_top ht h').symm
  | tail hpath hdown ih =>
      cases h' with
      | refl => exact absurd hdown (ht' _)
      | tail hpath' hdown' =>
          have hsame := (hup _ _ hdown).symm.trans (hup _ _ hdown')
          rw [← Option.some.inj hsame] at hpath'
          exact ih hpath'

end

end Forest

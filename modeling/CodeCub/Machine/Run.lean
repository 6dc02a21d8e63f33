import Mathlib.Data.List.Basic
import Mathlib.Data.List.ReduceOption

/-!
# Finite runs of a deterministic machine

A `Machine` consumes inputs one at a time and answers each of them.  A run is a
list of inputs folded into a state, `Along` says of every step of a run
something about the state it starts from, and the rules below carry an
invariant, or a relation between two moments, from one step to a whole run.
-/

structure Machine (σ ι ο : Type*) where
  step : σ → ι → σ × ο

namespace Machine

variable {σ ι ο : Type*} (m : Machine σ ι ο)

def next (s : σ) (i : ι) : σ := (m.step s i).1

def out (s : σ) (i : ι) : ο := (m.step s i).2

/-- The state reached after consuming `is` from `s`. -/
def run : σ → List ι → σ
  | s, [] => s
  | s, i :: is => run (m.next s i) is

/-- The answers of a run, in order. -/
def outs : σ → List ι → List ο
  | _, [] => []
  | s, i :: is => m.out s i :: outs (m.next s i) is

/-- Every step of the run, taken from its own starting state, satisfies `G`. -/
def Along (G : σ → ι → Prop) : σ → List ι → Prop
  | _, [] => True
  | s, i :: is => G s i ∧ Along G (m.next s i) is

variable {m}

theorem run_nil (s : σ) : m.run s [] = s := rfl

theorem run_cons (s : σ) (i : ι) (is : List ι) : m.run s (i :: is) = m.run (m.next s i) is := rfl

theorem outs_nil (s : σ) : m.outs s [] = [] := rfl

theorem outs_cons (s : σ) (i : ι) (is : List ι) :
    m.outs s (i :: is) = m.out s i :: m.outs (m.next s i) is := rfl

theorem along_nil (G : σ → ι → Prop) (s : σ) : m.Along G s [] ↔ True := Iff.rfl

theorem along_cons (G : σ → ι → Prop) (s : σ) (i : ι) (is : List ι) :
    m.Along G s (i :: is) ↔ G s i ∧ m.Along G (m.next s i) is := Iff.rfl

theorem run_append (s : σ) (a b : List ι) : m.run s (a ++ b) = m.run (m.run s a) b := by
  induction a generalizing s with
  | nil => rfl
  | cons i rest ih => exact ih (m.next s i)

theorem outs_append (s : σ) (a b : List ι) :
    m.outs s (a ++ b) = m.outs s a ++ m.outs (m.run s a) b := by
  induction a generalizing s with
  | nil => rfl
  | cons i rest ih =>
      rw [List.cons_append, outs_cons, outs_cons, ih, List.cons_append, run_cons]

/-- Two states that are related step by step give the same answers. -/
theorem outs_eq_of_related {R : σ → σ → Prop} {G : ι → Prop}
    (hstep : ∀ s t i, R s t → G i → m.out s i = m.out t i ∧ R (m.next s i) (m.next t i))
    {s t : σ} (hst : R s t) {is : List ι} (hG : ∀ i ∈ is, G i) : m.outs s is = m.outs t is := by
  induction is generalizing s t with
  | nil => rfl
  | cons i rest ih =>
      obtain ⟨hout, hnext⟩ := hstep s t i hst (hG i List.mem_cons_self)
      rw [outs_cons, outs_cons, hout, ih hnext fun j hj => hG j (List.mem_cons_of_mem _ hj)]

theorem along_append {G : σ → ι → Prop} {s : σ} {a b : List ι} :
    m.Along G s (a ++ b) ↔ m.Along G s a ∧ m.Along G (m.run s a) b := by
  induction a generalizing s with
  | nil => simp only [List.nil_append, along_nil, run_nil, true_and]
  | cons i rest ih =>
      simp only [List.cons_append, along_cons, run_cons, ih, and_assoc]

theorem along_and {G H : σ → ι → Prop} {s : σ} {is : List ι} :
    m.Along (fun s i => G s i ∧ H s i) s is ↔ m.Along G s is ∧ m.Along H s is := by
  induction is generalizing s with
  | nil => simp only [along_nil, and_self]
  | cons i rest ih =>
      simp only [along_cons, ih]
      constructor
      · rintro ⟨⟨hG, hH⟩, hrestG, hrestH⟩
        exact ⟨⟨hG, hrestG⟩, hH, hrestH⟩
      · rintro ⟨⟨hG, hrestG⟩, hH, hrestH⟩
        exact ⟨⟨hG, hH⟩, hrestG, hrestH⟩

/-- A step-by-step property is the property of every split of the run. -/
theorem along_iff_split {G : σ → ι → Prop} {s : σ} {is : List ι} :
    m.Along G s is ↔ ∀ before i after, is = before ++ i :: after → G (m.run s before) i := by
  constructor
  · intro h before i after hsplit
    subst hsplit
    exact (along_append.mp h).2.1
  · intro h
    induction is generalizing s with
    | nil => trivial
    | cons i rest ih =>
        refine ⟨h [] i rest rfl, ih ?_⟩
        intro before j after hsplit
        exact h (i :: before) j after (by rw [hsplit]; rfl)

/-- An invariant kept by every step that meets the guard holds after a run all
of whose steps meet the guard. -/
theorem run_invariant {P : σ → Prop} {G : σ → ι → Prop}
    (hstep : ∀ s i, P s → G s i → P (m.next s i)) {s : σ} {is : List ι}
    (hs : P s) (hG : m.Along G s is) : P (m.run s is) := by
  induction is generalizing s with
  | nil => exact hs
  | cons i rest ih => exact ih (hstep s i hs hG.1) hG.2

/-- An invariant of a state and of the answers so far. -/
theorem run_history {P : List ο → σ → Prop} {G : σ → ι → Prop}
    (hstep : ∀ outs s i, P outs s → G s i → P (outs ++ [m.out s i]) (m.next s i))
    {outs : List ο} {s : σ} {is : List ι} (hs : P outs s) (hG : m.Along G s is) :
    P (outs ++ m.outs s is) (m.run s is) := by
  induction is generalizing s outs with
  | nil =>
      rw [outs_nil, List.append_nil, run_nil]
      exact hs
  | cons i rest ih =>
      have h := ih (hstep outs s i hs hG.1) hG.2
      rw [List.append_assoc] at h
      exact h

/-- What every answer of a run satisfies, every step satisfies. -/
theorem forall_outs_iff_along {Q : ο → Prop} {s : σ} {is : List ι} :
    (∀ o ∈ m.outs s is, Q o) ↔ m.Along (fun s i => Q (m.out s i)) s is := by
  induction is generalizing s with
  | nil => simp only [outs_nil, along_nil, List.not_mem_nil, false_imp_iff, implies_true]
  | cons i rest ih => rw [outs_cons, List.forall_mem_cons, ih, along_cons]

theorem along_true (s : σ) (is : List ι) : m.Along (fun _ _ => True) s is := by
  induction is generalizing s with
  | nil => trivial
  | cons i rest ih => exact ⟨trivial, ih _⟩

theorem run_preserves {P : σ → Prop} (hstep : ∀ s i, P s → P (m.next s i)) {s : σ}
    (is : List ι) (hs : P s) : P (m.run s is) :=
  run_invariant (G := fun _ _ => True) (fun s i h _ => hstep s i h) hs (along_true s is)

/-- A reflexive and transitive relation that every step of an invariant state
respects relates the two ends of a run. -/
theorem run_related {P : σ → Prop} {R : σ → σ → Prop} (hrefl : ∀ s, R s s)
    (htrans : ∀ {a b c}, R a b → R b c → R a c)
    (hkeep : ∀ s i, P s → P (m.next s i)) (hstep : ∀ s i, P s → R s (m.next s i))
    {s : σ} (is : List ι) (hs : P s) : R s (m.run s is) := by
  induction is generalizing s with
  | nil => exact hrefl s
  | cons i rest ih => exact htrans (hstep s i hs) (ih (hkeep s i hs))

/-- `P` is kept under the guard and gives `Q`, and a step that reaches `Q` met the
guard: then `Q` holds in every state of a run exactly when the guard held at every
step. -/
theorem forall_prefix_iff_along_of {P Q : σ → Prop} {G : σ → ι → Prop}
    (hkeep : ∀ s i, P s → G s i → P (m.next s i)) (himp : ∀ s, P s → Q s)
    (hguard : ∀ s i, P s → Q (m.next s i) → G s i) {s : σ} {is : List ι} (hs : P s) :
    (∀ before, before <+: is → Q (m.run s before)) ↔ m.Along G s is := by
  constructor
  · intro h
    induction is generalizing s with
    | nil => trivial
    | cons i rest ih =>
        have hstep : G s i := hguard s i hs (h [i] ⟨rest, rfl⟩)
        refine ⟨hstep, ih (hkeep s i hs hstep) ?_⟩
        rintro before ⟨after, rfl⟩
        exact h (i :: before) ⟨after, rfl⟩
  · rintro h before ⟨after, rfl⟩
    exact himp _ (run_invariant hkeep hs (along_append.mp h).1)

/-- When a step keeps `P` exactly under the guard, `P` holds in every state of a
run exactly when the guard held at every step. -/
theorem forall_prefix_iff_along {P : σ → Prop} {G : σ → ι → Prop}
    (hstep : ∀ s i, P s → (P (m.next s i) ↔ G s i)) {s : σ} {is : List ι} (hs : P s) :
    (∀ before, before <+: is → P (m.run s before)) ↔ m.Along G s is :=
  forall_prefix_iff_along_of (fun s i hp => (hstep s i hp).mpr) (fun _ hp => hp)
    (fun s i hp => (hstep s i hp).mp) hs

/-- Steps that meet the guard in an invariant state have the property, all along
the run. -/
theorem along_of_along {P : σ → Prop} {G H : σ → ι → Prop}
    (hstep : ∀ s i, P s → G s i → P (m.next s i)) (himp : ∀ s i, P s → G s i → H s i)
    {s : σ} {is : List ι} (hs : P s) (hG : m.Along G s is) : m.Along H s is := by
  induction is generalizing s with
  | nil => trivial
  | cons i rest ih => exact ⟨himp s i hs hG.1, ih (hstep s i hs hG.1) hG.2⟩

/-- Two step properties that agree on invariant states hold along the same runs,
as soon as the first of them keeps the invariant. -/
theorem along_congr {P : σ → Prop} {G H : σ → ι → Prop}
    (hstep : ∀ s i, P s → G s i → P (m.next s i)) (hiff : ∀ s i, P s → (G s i ↔ H s i))
    {s : σ} {is : List ι} (hs : P s) : m.Along G s is ↔ m.Along H s is := by
  constructor
  · exact along_of_along hstep (fun s i hp hG => (hiff s i hp).mp hG) hs
  · exact along_of_along (fun s i hp hH => hstep s i hp ((hiff s i hp).mpr hH))
      (fun s i hp hH => (hiff s i hp).mpr hH) hs

/-- A run with silent steps answers as the run without them: a step that `plain` drops leaves
the relation as it is and has no answer, every other step is matched. -/
theorem outs_of_stutter {α : Type*} {m : Machine σ ι (Option α)} {plain : ι → Option ι}
    {R : σ → σ → Prop} {G : σ → ι → Prop}
    (hmatch : ∀ s t i j, R s t → G s i → plain i = some j →
      m.out s i = m.out t j ∧ R (m.next s i) (m.next t j))
    (hsilent : ∀ s t i, R s t → G s i → plain i = none → m.out s i = none ∧ R (m.next s i) t)
    {s t : σ} {is : List ι} (hst : R s t) (hG : m.Along G s is) :
    (m.outs s is).reduceOption = (m.outs t (is.filterMap plain)).reduceOption ∧
      R (m.run s is) (m.run t (is.filterMap plain)) := by
  induction is generalizing s t with
  | nil => exact ⟨rfl, hst⟩
  | cons i rest ih =>
      cases hplain : plain i with
      | some j =>
          obtain ⟨hout, hnext⟩ := hmatch s t i j hst hG.1 hplain
          obtain ⟨houts, hrun⟩ := ih hnext hG.2
          rw [List.filterMap_cons_some hplain]
          refine ⟨?_, hrun⟩
          show (m.out s i :: _).reduceOption = (m.out t j :: _).reduceOption
          cases hfirst : m.out s i with
          | none =>
              rw [← hout, hfirst, List.reduceOption_cons_of_none, List.reduceOption_cons_of_none,
                houts]
          | some answer =>
              rw [← hout, hfirst, List.reduceOption_cons_of_some, List.reduceOption_cons_of_some,
                houts]
      | none =>
          obtain ⟨hout, hnext⟩ := hsilent s t i hst hG.1 hplain
          obtain ⟨houts, hrun⟩ := ih hnext hG.2
          rw [List.filterMap_cons_none hplain]
          refine ⟨?_, hrun⟩
          show (m.out s i :: _).reduceOption = _
          rw [hout, List.reduceOption_cons_of_none, houts]

end Machine

import Mathlib.Data.List.Basic
import Mathlib.Order.Basic
import Mathlib.Algebra.Order.Group.Int

/-!
# Inclusive integer spans

A span `(a, b)` stands for the integers from `a` to `b`.  `mergeTouching` joins
each span to the last one kept when the two overlap or touch, and `gaps` lists what
a list of spans leaves open between a cursor and a last element.
-/

abbrev Span := Int × Int

namespace Span

def Within (n : Int) (s : Span) : Prop := s.1 ≤ n ∧ n ≤ s.2

instance (n : Int) (s : Span) : Decidable (Within n s) := inferInstanceAs (Decidable (_ ∧ _))

/-- Some span of the list holds `n`. -/
def Covered (n : Int) (spans : List Span) : Prop := ∃ s ∈ spans, Within n s

instance (n : Int) (spans : List Span) : Decidable (Covered n spans) :=
  inferInstanceAs (Decidable (∃ s ∈ spans, Within n s))

/-- Joins spans that overlap or touch; `kept` holds the spans so far, last one
first. -/
def mergeTouching : List Span → List Span → List Span
  | kept, [] => kept.reverse
  | [], s :: rest => mergeTouching [s] rest
  | last :: kept, s :: rest =>
      if s.1 ≤ last.2 + 1 then mergeTouching ((last.1, max last.2 s.2) :: kept) rest
      else mergeTouching (s :: last :: kept) rest

/-- What the spans leave open from `cursor` to `stop`. -/
def gaps (stop : Int) : Int → List Span → List Span
  | cursor, [] => if cursor ≤ stop then [(cursor, stop)] else []
  | cursor, s :: rest =>
      (if cursor < s.1 then [(cursor, s.1 - 1)] else []) ++ gaps stop (max cursor (s.2 + 1)) rest

variable {n : Int} {s last : Span} {spans kept : List Span}

theorem covered_cons : Covered n (s :: spans) ↔ Within n s ∨ Covered n spans := by
  simp [Covered]

theorem covered_append {a b : List Span} :
    Covered n (a ++ b) ↔ Covered n a ∨ Covered n b := by
  simp [Covered, or_and_right, exists_or]

/-- Joining two touching spans adds nothing to their union. -/
theorem within_join (htouch : s.1 ≤ last.2 + 1) (h : Within n (last.1, max last.2 s.2)) :
    Within n last ∨ Within n s := by
  obtain ⟨hlow, hhigh⟩ := h
  simp only at hlow hhigh
  unfold Within
  omega

/-- Merging spans covers no more than the spans did. -/
theorem covered_of_mergeTouching (h : Covered n (mergeTouching kept spans)) :
    Covered n kept ∨ Covered n spans := by
  induction kept, spans using mergeTouching.induct with
  | case1 kept =>
      rw [mergeTouching] at h
      refine Or.inl ?_
      obtain ⟨s, hs, hn⟩ := h
      exact ⟨s, List.mem_reverse.mp hs, hn⟩
  | case2 s rest ih =>
      rw [mergeTouching] at h
      rcases ih h with h | h
      · rw [covered_cons] at h ⊢
        rcases h with h | h
        · exact Or.inr (Or.inl h)
        · exact Or.inl h
      · exact Or.inr (covered_cons.mpr (Or.inr h))
  | case3 last kept s rest htouch ih =>
      rw [mergeTouching, if_pos htouch] at h
      rcases ih h with h | h
      · rw [covered_cons] at h
        rcases h with h | h
        · rcases within_join htouch h with h | h
          · exact Or.inl (covered_cons.mpr (Or.inl h))
          · exact Or.inr (covered_cons.mpr (Or.inl h))
        · exact Or.inl (covered_cons.mpr (Or.inr h))
      · exact Or.inr (covered_cons.mpr (Or.inr h))
  | case4 last kept s rest htouch ih =>
      rw [mergeTouching, if_neg htouch] at h
      rcases ih h with h | h
      · rw [covered_cons] at h
        rcases h with h | h
        · exact Or.inr (covered_cons.mpr (Or.inl h))
        · exact Or.inl h
      · exact Or.inr (covered_cons.mpr (Or.inr h))

/-- Nothing between the cursor and the end is both outside the gaps and outside
the spans. -/
theorem covered_gaps_or {stop cursor : Int} (hlow : cursor ≤ n) (hhigh : n ≤ stop) :
    Covered n (gaps stop cursor spans) ∨ Covered n spans := by
  induction spans generalizing cursor with
  | nil =>
      have hne : cursor ≤ stop := by omega
      refine Or.inl ⟨(cursor, stop), ?_, hlow, hhigh⟩
      simp [gaps, hne]
  | cons s rest ih =>
      rw [gaps, covered_append, covered_cons]
      by_cases hnext : max cursor (s.2 + 1) ≤ n
      · rcases ih hnext with h | h
        · exact Or.inl (Or.inr h)
        · exact Or.inr (Or.inr h)
      · -- the line lies before the new cursor: in the gap, or in the span itself
        by_cases hbefore : n < s.1
        · refine Or.inl (Or.inl ⟨(cursor, s.1 - 1), ?_, hlow, ?_⟩)
          · have hgap : cursor < s.1 := by omega
            simp [hgap]
          · simp only
            omega
        · refine Or.inr (Or.inl ⟨?_, ?_⟩)
          · omega
          · omega

/-! ## Normal forms -/

/-- In order, and no two spans overlap. -/
def Ordered (spans : List Span) : Prop := spans.Pairwise fun a b => a.2 < b.1

/-- In order, and between two spans something is left out. -/
def Separated (spans : List Span) : Prop := spans.Pairwise fun a b => a.2 + 1 < b.1

def Proper (s : Span) : Prop := s.1 ≤ s.2

/-- The spans neither overlap nor touch, in whichever order they stand. -/
def Apart (a b : Span) : Prop := a.2 + 1 < b.1 ∨ b.2 + 1 < a.1

theorem Apart.symm {a b : Span} (h : Apart a b) : Apart b a := Or.symm h

/-- Every integer of `whole` lies in exactly one span of the two lists, and no other
integer does. -/
structure Partition (whole : Span) (covered uncovered : List Span) : Prop where
  separated : Separated covered
  ordered : Ordered uncovered
  proper : ∀ s ∈ covered ++ uncovered, Proper s
  once : ∀ n, ((covered ++ uncovered).countP fun s => Within n s) =
    if Within n whole then 1 else 0

theorem Separated.ordered {spans : List Span} (h : Separated spans) : Ordered spans :=
  h.imp fun hab => by omega

/-- The span that grows takes in both of the spans it joins. -/
theorem within_join_of_or (hle : last.1 ≤ s.1) (h : Within n last ∨ Within n s) :
    Within n (last.1, max last.2 s.2) := by
  unfold Within at *
  simp only
  omega

/-- Merging spans that stand in the order of their first elements loses nothing. -/
theorem covered_mergeTouching (hsorted : (kept.reverse ++ spans).Pairwise fun a b => a.1 ≤ b.1)
    (h : Covered n kept ∨ Covered n spans) : Covered n (mergeTouching kept spans) := by
  induction kept, spans using mergeTouching.induct with
  | case1 kept =>
      rw [mergeTouching]
      rcases h with ⟨s, hs, hn⟩ | ⟨s, hs, hn⟩
      · exact ⟨s, List.mem_reverse.mpr hs, hn⟩
      · exact absurd hs List.not_mem_nil
  | case2 s rest ih =>
      rw [mergeTouching]
      refine ih hsorted ?_
      rcases h with ⟨s, hs, -⟩ | h
      · exact absurd hs List.not_mem_nil
      · rw [covered_cons] at h ⊢
        rcases h with h | h
        · exact Or.inl (Or.inl h)
        · exact Or.inr h
  | case3 last kept s rest htouch ih =>
      rw [mergeTouching, if_pos htouch]
      have hle : last.1 ≤ s.1 := by
        refine (List.pairwise_append.mp hsorted).2.2 last ?_ s List.mem_cons_self
        simp
      refine ih ?_ ?_
      · simp only [List.reverse_cons, List.append_assoc, List.singleton_append,
          List.pairwise_append, List.pairwise_cons, List.forall_mem_cons] at hsorted ⊢
        exact ⟨hsorted.1, ⟨hsorted.2.1.1.2, hsorted.2.1.2.2⟩,
          fun a ha => ⟨(hsorted.2.2 a ha).1, (hsorted.2.2 a ha).2.2⟩⟩
      · rw [covered_cons, covered_cons] at h
        rw [covered_cons]
        rcases h with (h | h) | h | h
        · exact Or.inl (Or.inl (within_join_of_or hle (Or.inl h)))
        · exact Or.inl (Or.inr h)
        · exact Or.inl (Or.inl (within_join_of_or hle (Or.inr h)))
        · exact Or.inr h
  | case4 last kept s rest htouch ih =>
      rw [mergeTouching, if_neg htouch]
      refine ih (by simpa using hsorted) ?_
      rw [covered_cons, covered_cons] at h
      rw [covered_cons, covered_cons]
      rcases h with h | h | h
      · exact Or.inl (Or.inr h)
      · exact Or.inl (Or.inl h)
      · exact Or.inr h

/-- Merging keeps what it has apart, and proper spans proper. -/
theorem separated_mergeTouching (hkept : Separated kept.reverse) (hproper : ∀ s ∈ kept, Proper s)
    (hsorted : spans.Pairwise fun a b => a.1 ≤ b.1) (hspans : ∀ s ∈ spans, Proper s) :
    Separated (mergeTouching kept spans) ∧ ∀ s ∈ mergeTouching kept spans, Proper s := by
  induction kept, spans using mergeTouching.induct with
  | case1 kept =>
      rw [mergeTouching]
      exact ⟨hkept, fun s hs => hproper s (List.mem_reverse.mp hs)⟩
  | case2 s rest ih =>
      rw [mergeTouching]
      rw [List.forall_mem_cons] at hspans
      exact ih (by simp [Separated]) (by simpa using hspans.1) hsorted.of_cons hspans.2
  | case3 last kept s rest htouch ih =>
      rw [mergeTouching, if_pos htouch]
      rw [List.forall_mem_cons] at hspans hproper
      refine ih ?_ ?_ hsorted.of_cons hspans.2
      · unfold Separated at hkept ⊢
        rw [List.reverse_cons, List.pairwise_append] at hkept ⊢
        refine ⟨hkept.1, List.pairwise_singleton _ _, ?_⟩
        intro a ha b hb
        rw [List.mem_singleton.mp hb]
        exact hkept.2.2 a ha last (List.mem_singleton_self last)
      · rw [List.forall_mem_cons]
        refine ⟨?_, hproper.2⟩
        have := hproper.1
        unfold Proper at *
        simp only
        omega
  | case4 last kept s rest htouch ih =>
      rw [mergeTouching, if_neg htouch]
      rw [List.forall_mem_cons] at hspans
      refine ih ?_ (List.forall_mem_cons.mpr ⟨hspans.1, hproper⟩) hsorted.of_cons hspans.2
      rw [List.forall_mem_cons] at hproper
      unfold Separated at hkept ⊢
      rw [List.reverse_cons, List.pairwise_append]
      refine ⟨hkept, List.pairwise_singleton _ _, ?_⟩
      intro a ha b hb
      rw [List.mem_singleton.mp hb]
      -- every earlier span ends before the last one does
      have hlast : a.2 ≤ last.2 := by
        rw [List.reverse_cons, List.mem_append, List.mem_singleton] at ha
        rcases ha with ha | ha
        · rw [List.reverse_cons, List.pairwise_append] at hkept
          have h := hkept.2.2 a ha last (List.mem_singleton_self last)
          have hp := hproper.1
          unfold Proper at hp
          omega
        · rw [ha]
      omega

/-! ## What the gaps are -/

/-- A gap lies between the cursor and the end, behind no span. -/
theorem gaps_spec {stop cursor : Int} (hspans : Ordered spans)
    (hproper : ∀ s ∈ spans, Proper s) :
    Ordered (gaps stop cursor spans) ∧
      ∀ g ∈ gaps stop cursor spans, Proper g ∧ cursor ≤ g.1 ∧
        ((∀ s ∈ spans, s.2 ≤ stop) → g.2 ≤ stop) ∧ ∀ n, Within n g → ¬ Covered n spans := by
  induction spans generalizing cursor with
  | nil =>
      unfold gaps
      by_cases h : cursor ≤ stop
      · rw [if_pos h]
        refine ⟨List.pairwise_singleton _ _, ?_⟩
        intro g hg
        rw [List.mem_singleton.mp hg]
        exact ⟨h, le_refl _, fun _ => le_refl _, fun n _ ⟨s, hs, _⟩ => List.not_mem_nil hs⟩
      · rw [if_neg h]
        exact ⟨List.Pairwise.nil, fun g hg => absurd hg List.not_mem_nil⟩
  | cons s rest ih =>
      rw [List.forall_mem_cons] at hproper
      obtain ⟨hs, hrest⟩ := List.pairwise_cons.mp hspans
      obtain ⟨hord, hgaps⟩ := @ih (max cursor (s.2 + 1)) hrest hproper.2
      have hsp : s.1 ≤ s.2 := hproper.1
      have htail : ∀ g ∈ gaps stop (max cursor (s.2 + 1)) rest, Proper g ∧ cursor ≤ g.1 ∧
          ((∀ t ∈ s :: rest, t.2 ≤ stop) → g.2 ≤ stop) ∧
            ∀ n, Within n g → ¬ Covered n (s :: rest) := by
        intro g hg
        obtain ⟨hp, hlow, hhigh, hout⟩ := hgaps g hg
        refine ⟨hp, by omega, fun hall => hhigh fun t ht => hall t (List.mem_cons_of_mem s ht), ?_⟩
        intro n hn hcov
        rcases covered_cons.mp hcov with hcov | hcov
        · unfold Within at hn hcov
          omega
        · exact hout n hn hcov
      rw [gaps]
      by_cases hgap : cursor < s.1
      · rw [if_pos hgap, List.singleton_append]
        refine ⟨List.pairwise_cons.mpr ⟨?_, hord⟩, List.forall_mem_cons.mpr ⟨?_, htail⟩⟩
        · intro g hg
          have hlow := (hgaps g hg).2.1
          show s.1 - 1 < g.1
          omega
        · refine ⟨?_, le_refl _, ?_, ?_⟩
          · show cursor ≤ s.1 - 1
            omega
          · intro hall
            have hstop := hall s List.mem_cons_self
            show s.1 - 1 ≤ stop
            omega
          · intro n hn hcov
            unfold Within at hn
            simp only at hn
            rcases covered_cons.mp hcov with hcov | ⟨t, ht, hcov⟩
            · unfold Within at hcov
              omega
            · have hst := hs t ht
              unfold Within at hcov
              omega
      · rw [if_neg hgap, List.nil_append]
        exact ⟨hord, htail⟩

/-- In a list in order, an integer lies in one span or in none. -/
theorem countP_within (hspans : Ordered spans) (hproper : ∀ s ∈ spans, Proper s) :
    (spans.countP fun s => Within n s) = if Covered n spans then 1 else 0 := by
  induction spans with
  | nil => simp [Covered]
  | cons s rest ih =>
      rw [List.forall_mem_cons] at hproper
      obtain ⟨hs, hrest⟩ := List.pairwise_cons.mp hspans
      rw [List.countP_cons, ih hrest hproper.2]
      by_cases hn : Within n s
      · have hout : ¬ Covered n rest := by
          rintro ⟨t, ht, hcov⟩
          have hst := hs t ht
          unfold Within at hn hcov
          omega
        rw [if_neg hout, if_pos (covered_cons.mpr (Or.inl hn))]
        simp [hn]
      · have hiff : Covered n (s :: rest) ↔ Covered n rest := by
          rw [covered_cons]
          exact or_iff_right hn
        simp [hn, hiff]

/-- Separated spans inside `[start, stop]` and the gaps between them partition it. -/
theorem partition_gaps {start stop : Int} (hspans : Separated spans)
    (hproper : ∀ s ∈ spans, Proper s) (hinside : ∀ s ∈ spans, start ≤ s.1 ∧ s.2 ≤ stop) :
    Partition (start, stop) spans (gaps stop start spans) := by
  obtain ⟨hordered, hgaps⟩ := @gaps_spec spans stop start hspans.ordered hproper
  refine ⟨hspans, hordered, ?_, ?_⟩
  · intro s hs
    rcases List.mem_append.mp hs with hs | hs
    · exact hproper s hs
    · exact (hgaps s hs).1
  · intro n
    rw [List.countP_append, countP_within hspans.ordered hproper,
      countP_within hordered fun g hg => (hgaps g hg).1]
    by_cases hcov : Covered n spans
    · have hopen : ¬ Covered n (gaps stop start spans) := by
        rintro ⟨g, hg, hn⟩
        exact (hgaps g hg).2.2.2 n hn hcov
      have hwhole : Within n (start, stop) := by
        obtain ⟨s, hs, hn⟩ := hcov
        have := hinside s hs
        unfold Within at *
        omega
      rw [if_pos hcov, if_neg hopen, if_pos hwhole]
    · have hiff : Covered n (gaps stop start spans) ↔ Within n (start, stop) := by
        constructor
        · rintro ⟨g, hg, hn⟩
          obtain ⟨-, hlow, hhigh, -⟩ := hgaps g hg
          have hstop := hhigh fun s hs => (hinside s hs).2
          unfold Within at *
          omega
        · intro hn
          exact (covered_gaps_or hn.1 hn.2).resolve_right hcov
      rw [if_neg hcov]
      simp only [hiff, Nat.zero_add]

end Span

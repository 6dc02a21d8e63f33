import CodeCub.Python.Find

/-!
# Counting occurrences

`str.count`, which goes on behind an occurrence that it has counted, and
`str.replace` with a count of one.
-/

namespace Python

variable {α : Type}

/-- The occurrences of `pat` are there and all start within the first one. -/
def Clustered (pat text : List α) : Prop :=
  ∃ i, Occurs pat text i ∧ ∀ j, Occurs pat text j → i ≤ j ∧ j < i + pat.length

section

variable {pat text : List α}

/-- An occurrence in the rest of a text is one of the text. -/
theorem occurs_drop {n i : Nat} : Occurs pat (text.drop n) i ↔ Occurs pat text (n + i) := by
  unfold Occurs
  rw [List.drop_drop]

theorem not_occurs_nil (hne : pat ≠ []) (i : Nat) : ¬ Occurs pat [] i := by
  intro h
  have hpos := List.length_pos_iff.mpr hne
  have hle := h.length_le hne
  rw [List.length_nil] at hle
  omega

end

variable [DecidableEq α]

/-- The occurrences in the rest of a text that has `skip` symbols of an occurrence to pass. -/
def countFrom (pat : List α) : Nat → List α → Nat
  | _, [] => 0
  | skip + 1, _ :: rest => countFrom pat skip rest
  | 0, c :: rest =>
      if pat.isPrefixOf (c :: rest) then countFrom pat (pat.length - 1) rest + 1
      else countFrom pat 0 rest

/-- `text.count(pat)` for a `pat` that is not empty. -/
def count (pat text : List α) : Nat := countFrom pat 0 text

/-- `text.replace(pat, mark, 1)` for a `pat` that is not empty. -/
def replaceFirst (pat mark : List α) : List α → List α
  | [] => []
  | c :: rest =>
      if pat.isPrefixOf (c :: rest) then mark ++ (c :: rest).drop pat.length
      else c :: replaceFirst pat mark rest

variable {pat mark text : List α}

theorem countFrom_eq (pat : List α) (skip : Nat) (text : List α) :
    countFrom pat skip text = count pat (text.drop skip) := by
  induction skip generalizing text with
  | zero => rfl
  | succ skip ih =>
      cases text with
      | nil => rfl
      | cons c rest => exact ih rest

theorem count_at_start (hne : pat ≠ []) (h : pat <+: text) :
    count pat text = count pat (text.drop pat.length) + 1 := by
  cases text with
  | nil => exact absurd (List.prefix_nil.mp h) hne
  | cons c rest =>
      have hpos := List.length_pos_iff.mpr hne
      have hdrop : (c :: rest).drop pat.length = rest.drop (pat.length - 1) := by
        rw [show pat.length = (pat.length - 1) + 1 by omega, List.drop_succ_cons]
        rfl
      rw [count, countFrom, if_pos (List.isPrefixOf_iff_prefix.mpr h), countFrom_eq, hdrop]

theorem count_cons {c : α} {rest : List α} (h : ¬ pat <+: c :: rest) :
    count pat (c :: rest) = count pat rest := by
  rw [count, countFrom, if_neg (mt List.isPrefixOf_iff_prefix.mp h)]
  rfl

example : count [1, 1] [1, 1, 1, 2, 1, 1] = 2 := by decide +kernel

/-- Nothing is counted exactly when nothing occurs. -/
theorem count_eq_zero_iff (hne : pat ≠ []) : count pat text = 0 ↔ ∀ i, ¬ Occurs pat text i := by
  induction text with
  | nil => exact ⟨fun _ => not_occurs_nil hne, fun _ => rfl⟩
  | cons c rest ih =>
      by_cases hstart : pat <+: c :: rest
      · rw [count_at_start hne hstart]
        refine iff_of_false (Nat.succ_ne_zero _) ?_
        intro hnone
        exact hnone 0 hstart
      · rw [count_cons hstart, ih]
        constructor
        · intro hnone i
          cases i with
          | zero => exact hstart
          | succ i => exact hnone i
        · intro hnone i
          exact hnone (i + 1)

/-- One occurrence is counted exactly when all of them start within the first one. -/
theorem count_eq_one_iff (hne : pat ≠ []) : count pat text = 1 ↔ Clustered pat text := by
  have hpos := List.length_pos_iff.mpr hne
  induction text with
  | nil =>
      refine iff_of_false (by rw [count, countFrom]; omega) ?_
      rintro ⟨i, hoccurs, -⟩
      exact not_occurs_nil hne i hoccurs
  | cons c rest ih =>
      by_cases hstart : pat <+: c :: rest
      · rw [count_at_start hne hstart, Nat.add_eq_right, count_eq_zero_iff hne]
        constructor
        · intro hnone
          refine ⟨0, hstart, fun j hj => ⟨Nat.zero_le j, ?_⟩⟩
          by_contra hfar
          have hlater : Occurs pat ((c :: rest).drop pat.length) (j - pat.length) := by
            rw [occurs_drop, Nat.add_sub_cancel' (by omega)]
            exact hj
          exact hnone _ hlater
        · rintro ⟨i, -, hall⟩ j hj
          have hfirst := hall 0 hstart
          have hnear := hall (pat.length + j) (occurs_drop.mp hj)
          omega
      · rw [count_cons hstart]
        refine ih.trans ⟨?_, ?_⟩
        · rintro ⟨i, hoccurs, hall⟩
          refine ⟨i + 1, hoccurs, fun j hj => ?_⟩
          cases j with
          | zero => exact absurd hj hstart
          | succ j =>
              have hnear := hall j hj
              omega
        · rintro ⟨i, hoccurs, hall⟩
          cases i with
          | zero => exact absurd hoccurs hstart
          | succ i =>
              refine ⟨i, hoccurs, fun j hj => ?_⟩
              have hnear := hall (j + 1) hj
              omega

theorem replaceFirst_at_start (hne : pat ≠ []) (h : pat <+: text) :
    replaceFirst pat mark text = mark ++ text.drop pat.length := by
  cases text with
  | nil => exact absurd (List.prefix_nil.mp h) hne
  | cons c rest => rw [replaceFirst, if_pos (List.isPrefixOf_iff_prefix.mpr h)]

/-- The occurrence behind `before` is replaced when none starts in `before`. -/
theorem replaceFirst_append (hne : pat ≠ []) {before after : List α}
    (hfirst : ∀ i < before.length, ¬ Occurs pat (before ++ pat ++ after) i) :
    replaceFirst pat mark (before ++ pat ++ after) = before ++ mark ++ after := by
  induction before with
  | nil =>
      rw [List.nil_append, replaceFirst_at_start hne (List.prefix_append pat after),
        List.drop_left, List.nil_append]
  | cons c before ih =>
      have hstart : ¬ pat <+: c :: (before ++ pat ++ after) := hfirst 0 (Nat.succ_pos _)
      have hrest : ∀ i < before.length, ¬ Occurs pat (before ++ pat ++ after) i := by
        intro i hi
        exact hfirst (i + 1) (Nat.succ_lt_succ hi)
      show replaceFirst pat mark (c :: (before ++ pat ++ after)) = _
      rw [replaceFirst, if_neg (mt List.isPrefixOf_iff_prefix.mp hstart), ih hrest]
      rfl

/-- Where `pat` occurs, the first occurrence is replaced. -/
theorem exists_replaceFirst (hne : pat ≠ []) (h : pat <:+: text) :
    ∃ before after, text = before ++ pat ++ after ∧
      replaceFirst pat mark text = before ++ mark ++ after := by
  induction text with
  | nil => exact absurd (List.infix_nil.mp h) hne
  | cons c rest ih =>
      by_cases hstart : pat <+: c :: rest
      · refine ⟨[], (c :: rest).drop pat.length, ?_, ?_⟩
        · exact (List.prefix_iff_eq_append.mp hstart).symm
        · exact replaceFirst_at_start hne hstart
      · have hrest : pat <:+: rest := (List.infix_cons_iff.mp h).resolve_left hstart
        obtain ⟨before, after, rfl, hreplaced⟩ := ih hrest
        refine ⟨c :: before, after, rfl, ?_⟩
        rw [replaceFirst, if_neg (mt List.isPrefixOf_iff_prefix.mp hstart), hreplaced]
        rfl

end Python

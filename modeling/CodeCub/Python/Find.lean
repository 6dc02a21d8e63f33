import Mathlib.Data.Nat.Find
import Mathlib.Data.List.Infix

/-!
# First occurrences

`str.find` over lists of any symbols, and what a reader who sees a text in pieces has
to keep of it in order not to miss an occurrence: the longest end of the text that may
still become one.
-/

namespace Python

variable {α : Type}

/-- `pat` stands in `text` at position `i`. -/
def Occurs (pat text : List α) (i : Nat) : Prop := pat <+: text.drop i

example : Occurs [2, 3] [1, 2, 3] 1 := by
  unfold Occurs
  decide +kernel

variable {pat text a b : List α} {i : Nat}

theorem Occurs.length_le (h : Occurs pat text i) (hne : pat ≠ []) :
    i + pat.length ≤ text.length := by
  have hlength := List.IsPrefix.length_le h
  have hpos := List.length_pos_iff.mpr hne
  rw [List.length_drop] at hlength
  omega

/-- An occurrence in the second part. -/
theorem occurs_append_right (a : List α) : Occurs pat (a ++ b) (a.length + i) ↔ Occurs pat b i := by
  unfold Occurs
  rw [← List.drop_drop, List.drop_left]

theorem Occurs.append (h : Occurs pat a i) (hne : pat ≠ []) (b : List α) :
    Occurs pat (a ++ b) i := by
  have hlength := h.length_le hne
  unfold Occurs
  rw [List.drop_append_of_le_length (by omega)]
  exact h.trans (List.prefix_append _ _)

/-- An occurrence that ends in the first part. -/
theorem Occurs.of_append (h : Occurs pat (a ++ b) i) (hend : i + pat.length ≤ a.length) :
    Occurs pat a i := by
  unfold Occurs at h ⊢
  rw [List.drop_append_of_le_length (by omega)] at h
  refine List.prefix_of_prefix_length_le h (List.prefix_append _ _) ?_
  rw [List.length_drop]
  omega

/-- An occurrence that starts in the first part and ends in the second one. -/
theorem Occurs.straddle (h : Occurs pat (a ++ b) i) (hstart : i ≤ a.length)
    (hend : a.length ≤ i + pat.length) : a.drop i <+: pat := by
  unfold Occurs at h
  rw [List.drop_append_of_le_length hstart] at h
  refine List.prefix_of_prefix_length_le (List.prefix_append _ _) h ?_
  rw [List.length_drop]
  omega

theorem exists_occurs_iff : pat <:+: text ↔ ∃ i, Occurs pat text i := by
  constructor
  · rintro ⟨before, after, rfl⟩
    refine ⟨before.length, ?_⟩
    unfold Occurs
    rw [List.append_assoc, List.drop_left]
    exact List.prefix_append _ _
  · rintro ⟨i, h⟩
    exact h.isInfix.trans (List.drop_suffix _ _).isInfix

/-- `text[-n:]` for a positive `n`. -/
def lastN (n : Nat) (text : List α) : List α := text.drop (text.length - n)

theorem length_lastN (n : Nat) (text : List α) : (lastN n text).length = min n text.length := by
  unfold lastN
  rw [List.length_drop]
  omega

theorem lastN_suffix (n : Nat) (text : List α) : lastN n text <:+ text :=
  List.drop_suffix _ _

theorem lastN_of_le {n : Nat} {text : List α} (h : text.length ≤ n) : lastN n text = text := by
  unfold lastN
  rw [Nat.sub_eq_zero_of_le h, List.drop_zero]

theorem lastN_map {β : Type} (f : α → β) (n : Nat) (text : List α) :
    lastN n (text.map f) = (lastN n text).map f := by
  unfold lastN
  rw [List.length_map, List.map_drop]

theorem lastN_concat (n : Nat) (text : List α) (a : α) :
    lastN (n + 1) (text ++ [a]) = lastN n text ++ [a] := by
  unfold lastN
  rw [List.length_append, List.length_singleton, Nat.add_sub_add_right,
    List.drop_append_of_le_length (Nat.sub_le _ _)]

theorem lastN_append {n : Nat} (h : n ≤ b.length) (a : List α) :
    lastN n (a ++ b) = lastN n b := by
  unfold lastN
  rw [List.length_append, List.drop_append, List.drop_eq_nil_of_le (by omega), List.nil_append]
  congr 1
  omega

/-- The last symbols of a text that goes on depend on its own last symbols only. -/
theorem lastN_lastN_append (n : Nat) (a b : List α) :
    lastN n (lastN n a ++ b) = lastN n (a ++ b) := by
  obtain ⟨before, hsplit⟩ := lastN_suffix n a
  by_cases hn : n ≤ a.length
  · have hlength : n ≤ (lastN n a ++ b).length := by
      rw [List.length_append, length_lastN]
      omega
    calc lastN n (lastN n a ++ b) = lastN n (before ++ (lastN n a ++ b)) :=
          (lastN_append hlength before).symm
      _ = lastN n (a ++ b) := by rw [← List.append_assoc, hsplit]
  · have hall : lastN n a = a := by
      unfold lastN
      rw [Nat.sub_eq_zero_of_le (by omega), List.drop_zero]
    rw [hall]

variable [DecidableEq α]

/-- `text.find(pat)`. -/
def find (pat : List α) : List α → Option Nat
  | [] => if pat = [] then some 0 else none
  | c :: rest => if pat.isPrefixOf (c :: rest) then some 0 else (find pat rest).map (· + 1)

/-- The length of the longest end of `text`, shorter than `pat`, that `pat` starts with. -/
def overlap (pat text : List α) : Nat :=
  Nat.findGreatest (fun n => lastN n text <+: pat) (min (pat.length - 1) text.length)

/-- The end of a text that a reader has to keep while it looks for `pat`. -/
def kept (pat text : List α) : List α := lastN (overlap pat text) text

/-- The rest of the text, which is no part of any later occurrence. -/
def spent (pat text : List α) : List α := text.take (text.length - overlap pat text)

/-! ## The first occurrence -/

variable {pat text a b : List α} {i : Nat}

theorem find_eq_some_iff :
    find pat text = some i ↔ Occurs pat text i ∧ ∀ j < i, ¬ Occurs pat text j := by
  induction text generalizing i with
  | nil =>
      unfold find Occurs
      by_cases hpat : pat = []
      · subst hpat
        cases i with
        | zero => simp
        | succ i =>
            constructor
            · intro hi
              simp at hi
            · rintro ⟨-, hfirst⟩
              exact absurd (List.nil_prefix) (hfirst 0 (Nat.succ_pos i))
      · simp [hpat]
  | cons c rest ih =>
      unfold find
      by_cases hhere : pat.isPrefixOf (c :: rest) = true
      · rw [if_pos hhere]
        have hoccurs : Occurs pat (c :: rest) 0 := List.isPrefixOf_iff_prefix.mp hhere
        constructor
        · intro hi
          cases hi
          exact ⟨hoccurs, fun j hj => absurd hj (Nat.not_lt_zero _)⟩
        · rintro ⟨-, hfirst⟩
          cases i with
          | zero => rfl
          | succ i => exact absurd hoccurs (hfirst 0 (Nat.succ_pos _))
      · rw [if_neg hhere]
        have hnot : ¬ Occurs pat (c :: rest) 0 := fun h =>
          hhere (List.isPrefixOf_iff_prefix.mpr h)
        cases i with
        | zero =>
            constructor
            · intro hi
              simp at hi
            · rintro ⟨h, -⟩
              exact absurd h hnot
        | succ i =>
            rw [Option.map_eq_some_iff]
            constructor
            · rintro ⟨k, hk, hki⟩
              have hki : k = i := by omega
              subst hki
              obtain ⟨hoccurs, hfirst⟩ := ih.mp hk
              refine ⟨hoccurs, ?_⟩
              intro j hj
              cases j with
              | zero => exact hnot
              | succ j => exact hfirst j (by omega)
            · rintro ⟨hoccurs, hfirst⟩
              exact ⟨i, ih.mpr ⟨hoccurs, fun j hj => hfirst (j + 1) (by omega)⟩, rfl⟩

example : find [2, 3] [1, 2, 3, 2, 3] = some 1 := by decide +kernel

theorem find_eq_none_iff : find pat text = none ↔ ∀ i, ¬ Occurs pat text i := by
  constructor
  · intro h i
    induction i using Nat.strongRecOn with
    | ind i ih =>
        intro hoccurs
        have := find_eq_some_iff.mpr ⟨hoccurs, ih⟩
        rw [h] at this
        cases this
  · intro h
    cases hfind : find pat text with
    | none => rfl
    | some i => exact absurd (find_eq_some_iff.mp hfind).1 (h i)

theorem find_isSome_iff : (find pat text).isSome ↔ pat <:+: text := by
  rw [exists_occurs_iff, Option.isSome_iff_ne_none, ne_eq, find_eq_none_iff]
  simp

/-- What is found in a text is found there when the text goes on. -/
theorem find_append_of_some (h : find pat a = some i) (hne : pat ≠ []) (b : List α) :
    find pat (a ++ b) = some i := by
  obtain ⟨hoccurs, hfirst⟩ := find_eq_some_iff.mp h
  have hlength := hoccurs.length_le hne
  refine find_eq_some_iff.mpr ⟨hoccurs.append hne b, ?_⟩
  intro j hj hother
  exact hfirst j hj (hother.of_append (by omega))

/-- Nothing starts in the first part: the search may begin at the second one. -/
theorem find_append_of_not (h : ∀ i < a.length, ¬ Occurs pat (a ++ b) i) :
    find pat (a ++ b) = (find pat b).map (a.length + ·) := by
  cases hfind : find pat b with
  | none =>
      rw [find_eq_none_iff] at hfind
      refine find_eq_none_iff.mpr ?_
      intro i hoccurs
      by_cases hi : i < a.length
      · exact h i hi hoccurs
      · refine hfind (i - a.length) ((occurs_append_right a).mp ?_)
        rw [Nat.add_sub_cancel' (by omega)]
        exact hoccurs
  | some k =>
      obtain ⟨hoccurs, hfirst⟩ := find_eq_some_iff.mp hfind
      refine find_eq_some_iff.mpr ⟨(occurs_append_right a).mpr hoccurs, ?_⟩
      intro j hj hother
      have hj : j < a.length + k := hj
      by_cases hja : j < a.length
      · exact h j hja hother
      · refine hfirst (j - a.length) (by omega) ((occurs_append_right a).mp ?_)
        rw [Nat.add_sub_cancel' (by omega)]
        exact hother

/-! ## Reading a text in pieces -/

theorem overlap_le : overlap pat text ≤ text.length :=
  (Nat.findGreatest_le _).trans (Nat.min_le_right _ _)

theorem overlap_lt (hne : pat ≠ []) : overlap pat text < pat.length := by
  have hle : overlap pat text ≤ pat.length - 1 :=
    (Nat.findGreatest_le _).trans (Nat.min_le_left _ _)
  have hpos := List.length_pos_iff.mpr hne
  omega

theorem kept_begins : kept pat text <+: pat := by
  refine Nat.findGreatest_spec (P := fun n => lastN n text <+: pat) (Nat.zero_le _) ?_
  simp [lastN]

theorem le_overlap {n : Nat} (h : lastN n text <+: pat) (hpat : n < pat.length)
    (htext : n ≤ text.length) : n ≤ overlap pat text :=
  Nat.le_findGreatest (le_min (by omega) htext) h

theorem spent_append_kept : spent pat text ++ kept pat text = text :=
  List.take_append_drop _ _

theorem length_kept : (kept pat text).length = overlap pat text := by
  have hle : overlap pat text ≤ text.length := overlap_le
  unfold kept
  rw [length_lastN]
  omega

/-- A tail of the text that `pat` starts with does not reach into the spent part. -/
theorem spent_le_of_drop_begins (h : text.drop i <+: pat) (hpat : text.length < i + pat.length)
    (hi : i ≤ text.length) : (spent pat text).length ≤ i := by
  have hlast : lastN (text.length - i) text <+: pat := by
    unfold lastN
    rw [Nat.sub_sub_self hi]
    exact h
  have hle := le_overlap hlast (by omega) (by omega)
  unfold spent
  rw [List.length_take]
  omega

/-- Whatever comes after a text without `pat`, an occurrence starts in the kept part or
later. -/
theorem find_append_kept (h : find pat text = none) (more : List α) :
    find pat (text ++ more) =
      (find pat (kept pat text ++ more)).map ((spent pat text).length + ·) := by
  have hsplit : text ++ more = spent pat text ++ (kept pat text ++ more) := by
    rw [← List.append_assoc, spent_append_kept]
  rw [hsplit]
  apply find_append_of_not
  rw [← hsplit]
  intro i hi hoccurs
  have hle : (spent pat text).length ≤ text.length := (List.take_prefix _ _).length_le
  by_cases hend : i + pat.length ≤ text.length
  · exact find_eq_none_iff.mp h i (hoccurs.of_append hend)
  · have := spent_le_of_drop_begins (hoccurs.straddle (by omega) (by omega)) (by omega) (by omega)
    omega

/-- What `pat` can still grow from is decided by the kept part and what follows it. -/
theorem overlap_append (hne : pat ≠ []) (text more : List α) :
    overlap pat (text ++ more) = overlap pat (kept pat text ++ more) := by
  have hsplit : text ++ more = spent pat text ++ (kept pat text ++ more) := by
    rw [← List.append_assoc, spent_append_kept]
  apply Nat.le_antisymm
  · have hstarts : lastN (overlap pat (text ++ more)) (text ++ more) <+: pat := kept_begins
    have hlt : overlap pat (text ++ more) < pat.length := overlap_lt hne
    have hle : overlap pat (text ++ more) ≤ (text ++ more).length := overlap_le
    by_cases hshort : overlap pat (text ++ more) ≤ (kept pat text ++ more).length
    · refine le_overlap ?_ hlt hshort
      rw [hsplit, lastN_append (by rw [← hsplit]; exact hshort), ← hsplit] at hstarts
      exact hstarts
    · -- a longer end would begin in the spent part
      exfalso
      have hlength : (spent pat text ++ kept pat text).length = text.length := by
        rw [spent_append_kept]
      rw [List.length_append] at hlength hshort
      rw [List.length_append] at hle
      have hdrop : text.drop ((text ++ more).length - overlap pat (text ++ more)) <+: pat := by
        refine List.IsPrefix.trans ?_ hstarts
        unfold lastN
        rw [List.drop_append_of_le_length (by rw [List.length_append]; omega)]
        exact List.prefix_append _ _
      have hspent := spent_le_of_drop_begins hdrop (by rw [List.length_append]; omega)
        (by rw [List.length_append]; omega)
      rw [List.length_append] at hspent
      omega
  · have hle : overlap pat (kept pat text ++ more) ≤ (kept pat text ++ more).length := overlap_le
    refine le_overlap ?_ (overlap_lt hne) ?_
    · rw [hsplit, lastN_append hle]
      exact kept_begins
    · rw [hsplit, List.length_append]
      omega

theorem kept_append (hne : pat ≠ []) (text more : List α) :
    kept pat (text ++ more) = kept pat (kept pat text ++ more) := by
  have hsplit : text ++ more = spent pat text ++ (kept pat text ++ more) := by
    rw [← List.append_assoc, spent_append_kept]
  have hle : overlap pat (kept pat text ++ more) ≤ (kept pat text ++ more).length := overlap_le
  unfold kept
  rw [overlap_append hne]
  conv_lhs => rw [hsplit]
  exact lastN_append hle _

theorem spent_append (hne : pat ≠ []) (text more : List α) :
    spent pat (text ++ more) = spent pat text ++ spent pat (kept pat text ++ more) := by
  have hcancel : spent pat (text ++ more) ++ kept pat (text ++ more) =
      spent pat text ++ spent pat (kept pat text ++ more) ++ kept pat (text ++ more) := by
    rw [spent_append_kept, List.append_assoc, kept_append hne, spent_append_kept,
      ← List.append_assoc, spent_append_kept]
  exact List.append_cancel_right hcancel

end Python

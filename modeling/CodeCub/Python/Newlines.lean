import CodeCub.Python.Json

/-!
# Universal newlines

What is read in text mode: `\r\n` and `\r` are read as `\n`.
-/

namespace Python

def universalNewlines : Str → Str
  | [] => []
  | c :: rest =>
      if c = '\r' then
        if rest.head? = some '\n' then universalNewlines rest else '\n' :: universalNewlines rest
      else c :: universalNewlines rest

theorem universalNewlines_cons {c : Char} (rest : Str) (h : c ≠ '\r') :
    universalNewlines (c :: rest) = c :: universalNewlines rest := by
  rw [universalNewlines, if_neg h]

theorem universalNewlines_return (rest : Str) :
    ∃ rest', universalNewlines ('\r' :: rest) = '\n' :: rest' := by
  rw [universalNewlines, if_pos rfl]
  split
  · next hnewline =>
      cases rest with
      | nil => cases hnewline
      | cons d rest =>
          cases hnewline
          exact ⟨_, universalNewlines_cons rest (by decide)⟩
  · exact ⟨_, rfl⟩

theorem universalNewlines_of_not_mem {text : Str} (h : '\r' ∉ text) :
    universalNewlines text = text := by
  induction text with
  | nil => rfl
  | cons c rest ih =>
      rw [List.mem_cons, not_or] at h
      rw [universalNewlines_cons rest (Ne.symm h.1), ih h.2]

theorem return_not_mem_universalNewlines (text : Str) : '\r' ∉ universalNewlines text := by
  induction text with
  | nil => exact List.not_mem_nil
  | cons c rest ih =>
      rw [universalNewlines]
      split
      · split
        · exact ih
        · exact List.not_mem_cons_of_ne_of_not_mem (by decide) ih
      · next hc => exact List.not_mem_cons_of_ne_of_not_mem (Ne.symm hc) ih

/-- What comes before the first carriage return stays. -/
theorem universalNewlines_append {a : Str} (rest : Str) (h : '\r' ∉ a) :
    universalNewlines (a ++ rest) = a ++ universalNewlines rest := by
  induction a with
  | nil => rfl
  | cons c a ih =>
      rw [List.mem_cons, not_or] at h
      rw [List.cons_append, universalNewlines_cons _ (Ne.symm h.1), ih h.2]
      rfl

/-- A character of the result that is no newline was there before. -/
theorem universalNewlines_eq_cons {text rest : Str} {c : Char}
    (h : universalNewlines text = c :: rest) (hc : c ≠ '\n') :
    ∃ rest', text = c :: rest' ∧ universalNewlines rest' = rest := by
  cases text with
  | nil => cases h
  | cons d text =>
      by_cases hd : d = '\r'
      · subst hd
        obtain ⟨rest', hrest'⟩ := universalNewlines_return text
        rw [hrest'] at h
        injection h with hsame
        exact absurd hsame.symm hc
      · rw [universalNewlines_cons text hd] at h
        injection h with hsame hrest
        exact ⟨text, by rw [hsame], hrest⟩

theorem universalNewlines_eq_nil {text : Str} : universalNewlines text = [] ↔ text = [] := by
  constructor
  · intro h
    cases text with
    | nil => rfl
    | cons c text =>
        by_cases hc : c = '\r'
        · subst hc
          obtain ⟨rest', hrest'⟩ := universalNewlines_return text
          rw [hrest'] at h
          cases h
        · rw [universalNewlines_cons text hc] at h
          cases h
  · rintro rfl
    rfl

/-- Other characters are neither added nor taken away. -/
theorem mem_universalNewlines {text : Str} {c : Char} (hr : c ≠ '\r') (hn : c ≠ '\n') :
    c ∈ universalNewlines text ↔ c ∈ text := by
  induction text with
  | nil => exact Iff.rfl
  | cons d rest ih =>
      rw [universalNewlines]
      split
      · next hd =>
          subst hd
          rw [List.mem_cons, or_iff_right hr, ← ih]
          split
          · exact Iff.rfl
          · rw [List.mem_cons, or_iff_right hn]
      · rw [List.mem_cons, List.mem_cons, ih]

/-- The newlines of the parts are those of the whole. -/
theorem splitOn_universalNewlines {sep : Char} (hr : sep ≠ '\r') (hn : sep ≠ '\n') (text : Str) :
    (universalNewlines text).splitOn sep = (text.splitOn sep).map universalNewlines := by
  induction text with
  | nil => rfl
  | cons c rest ih =>
      obtain ⟨part, parts, hparts⟩ := List.exists_cons_of_ne_nil (List.splitOn_ne_nil sep rest)
      by_cases hc : c = '\r'
      · subst hc
        have hhead : part.head? = some '\n' ↔ rest.head? = some '\n' := by
          cases rest with
          | nil =>
              cases hparts
              exact Iff.rfl
          | cons d rest =>
              rw [List.splitOn_cons_eq_if_modifyHead] at hparts
              split at hparts
              · next hd =>
                  cases hparts
                  rw [beq_iff_eq] at hd
                  subst hd
                  simp [hn]
              · obtain ⟨first, others, hothers⟩ :=
                  List.exists_cons_of_ne_nil (List.splitOn_ne_nil sep rest)
                rw [hothers] at hparts
                cases hparts
                exact Iff.rfl
        rw [List.splitOn_cons_eq_if_modifyHead, if_neg (by simpa using Ne.symm hr), hparts,
          List.modifyHead_cons, List.map_cons, universalNewlines, universalNewlines, if_pos rfl, if_pos rfl]
        rw [hparts, List.map_cons] at ih
        by_cases hnewline : rest.head? = some '\n'
        · rw [if_pos hnewline, if_pos (hhead.mpr hnewline), ih]
        · rw [if_neg hnewline, if_neg (fun h => hnewline (hhead.mp h)),
            List.splitOn_cons_eq_if_modifyHead, if_neg (by simpa using Ne.symm hn), ih,
            List.modifyHead_cons]
      · rw [universalNewlines_cons rest hc, List.splitOn_cons_eq_if_modifyHead,
          List.splitOn_cons_eq_if_modifyHead, ih]
        split
        · rfl
        · rw [hparts, List.map_cons, List.modifyHead_cons, List.modifyHead_cons, List.map_cons,
            universalNewlines_cons part hc]

end Python

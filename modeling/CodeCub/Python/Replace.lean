import CodeCub.Python.Find

/-!
# Replacing occurrences

`str.replace` over lists of any symbols.  A replacement that shares no symbol with a
pattern takes the pattern out of every text, and lets no other such pattern appear that
was not there before.
-/

namespace Python

variable {α : Type}

/-! ## Parts with a foreign symbol between them -/

section Infix

variable {pat a b : List α} {c : α}

/-- A text cannot reach over a symbol that it does not have. -/
theorem infix_append_cons (hc : c ∉ pat) (h : pat <:+: a ++ c :: b) : pat <:+: a ∨ pat <:+: b := by
  obtain ⟨before, after, heq⟩ := h
  rcases List.append_eq_append_iff.mp heq with ⟨rest, ha, -⟩ | ⟨rest, hfront, hback⟩
  · exact .inl ⟨before, rest, ha.symm⟩
  · cases rest with
    | nil =>
        rw [List.append_nil] at hfront
        exact .inl ⟨before, [], by rw [List.append_nil, hfront]⟩
    | cons d rest =>
        obtain ⟨rfl, -⟩ := List.cons.inj hback
        rcases List.append_eq_append_iff.mp hfront with ⟨left, -, hpat⟩ | ⟨left, -, hright⟩
        · exact absurd (hpat ▸ List.mem_append_right _ (List.mem_cons_self ..)) hc
        · cases left with
          | nil =>
              rw [List.nil_append] at hright
              exact absurd (hright ▸ List.mem_cons_self ..) hc
          | cons d left =>
              obtain ⟨-, htail⟩ := List.cons.inj hright
              obtain ⟨-, hb⟩ := List.cons.inj hback
              refine .inr ⟨left, after, ?_⟩
              rw [hb, htail]
              rfl

theorem infix_append_append {mark : List α} (hmark : mark ≠ []) (hfresh : ∀ c ∈ pat, c ∉ mark)
    (h : pat <:+: a ++ (mark ++ b)) : pat <:+: a ∨ pat <:+: b := by
  by_cases hne : pat = []
  · exact .inl (hne ▸ List.nil_infix)
  induction mark generalizing a with
  | nil => exact absurd rfl hmark
  | cons c mark ih =>
      have hc : c ∉ pat := fun hmem => hfresh c hmem (List.mem_cons_self ..)
      rcases infix_append_cons hc h with h | h
      · exact .inl h
      · by_cases hempty : mark = []
        · rw [hempty] at h
          exact .inr h
        · have hrest : ∀ c ∈ pat, c ∉ mark := fun d hd hmem =>
            hfresh d hd (List.mem_cons_of_mem _ hmem)
          rcases ih hempty hrest (a := []) h with h | h
          · exact absurd (List.eq_nil_of_infix_nil h) hne
          · exact .inr h

end Infix

/-! ## `str.replace` -/

variable [DecidableEq α]

/-- The rest of a replacement that has `skip` symbols of an occurrence to leave out. -/
def replaceFrom (pat mark : List α) : Nat → List α → List α
  | _, [] => []
  | skip + 1, _ :: rest => replaceFrom pat mark skip rest
  | 0, c :: rest =>
      if pat.isPrefixOf (c :: rest) then mark ++ replaceFrom pat mark (pat.length - 1) rest
      else c :: replaceFrom pat mark 0 rest

/-- `text.replace(pat, mark)` for a `pat` that is not empty. -/
def replace (pat mark text : List α) : List α := replaceFrom pat mark 0 text

variable {pat mark text : List α}

theorem replaceFrom_eq (pat mark : List α) (skip : Nat) (text : List α) :
    replaceFrom pat mark skip text = replace pat mark (text.drop skip) := by
  induction skip generalizing text with
  | zero => rfl
  | succ skip ih =>
      cases text with
      | nil => rfl
      | cons c rest => exact ih rest

theorem replace_at_start (hne : pat ≠ []) (h : pat <+: text) :
    replace pat mark text = mark ++ replace pat mark (text.drop pat.length) := by
  cases text with
  | nil => exact absurd (List.prefix_nil.mp h) hne
  | cons c rest =>
      have hpos := List.length_pos_iff.mpr hne
      have hdrop : (c :: rest).drop pat.length = rest.drop (pat.length - 1) := by
        rw [show pat.length = (pat.length - 1) + 1 by omega, List.drop_succ_cons]
        rfl
      rw [replace, replaceFrom, if_pos (List.isPrefixOf_iff_prefix.mpr h), replaceFrom_eq, hdrop]

theorem replace_cons {c : α} {rest : List α} (h : ¬ pat <+: c :: rest) :
    replace pat mark (c :: rest) = c :: replace pat mark rest := by
  rw [replace, replaceFrom, if_neg (mt List.isPrefixOf_iff_prefix.mp h)]
  rfl

/-- No text without symbols of the replacement appears. -/
theorem infix_of_infix_replace {word : List α} (hne : pat ≠ []) (hmark : mark ≠ [])
    (hfresh : ∀ c ∈ word, c ∉ mark) (before : List α)
    (h : word <:+: before ++ replace pat mark text) : word <:+: before ++ text := by
  -- `before` is the part of the text that has been copied since the last occurrence.
  induction hlength : text.length using Nat.strong_induction_on generalizing text before with
  | _ n ih =>
      by_cases hstart : pat <+: text
      · rw [replace_at_start hne hstart] at h
        rcases infix_append_append hmark hfresh h with h | h
        · exact h.trans (List.prefix_append _ _).isInfix
        · have hpos := List.length_pos_iff.mpr hne
          have hle := hstart.length_le
          have hrest := ih (text.drop pat.length).length (by rw [List.length_drop]; omega)
            [] h rfl
          exact (hrest.trans (List.drop_suffix _ _).isInfix).trans (List.suffix_append _ _).isInfix
      · cases text with
        | nil => exact h
        | cons c rest =>
            rw [replace_cons hstart, List.append_cons] at h
            rw [List.append_cons]
            exact ih rest.length (by rw [← hlength]; exact Nat.lt_succ_self _) _ h rfl

/-- No occurrence is left. -/
theorem not_infix_replace_append (hne : pat ≠ []) (hmark : mark ≠ [])
    (hfresh : ∀ c ∈ pat, c ∉ mark) (before : List α)
    (hbefore : ∀ i < before.length, ¬ Occurs pat (before ++ text) i) :
    ¬ pat <:+: before ++ replace pat mark text := by
  induction hlength : text.length using Nat.strong_induction_on generalizing text before with
  | _ n ih =>
      have hcopied : ¬ pat <:+: before := by
        intro h
        obtain ⟨i, hi⟩ := exists_occurs_iff.mp h
        have hpos := List.length_pos_iff.mpr hne
        have hle := hi.length_le hne
        exact hbefore i (by omega) (hi.append hne _)
      intro h
      by_cases hstart : pat <+: text
      · rw [replace_at_start hne hstart] at h
        rcases infix_append_append hmark hfresh h with h | h
        · exact hcopied h
        · have hpos := List.length_pos_iff.mpr hne
          have hle := hstart.length_le
          refine ih (text.drop pat.length).length (by rw [List.length_drop]; omega)
            [] ?_ rfl h
          intro i hi
          exact absurd hi (Nat.not_lt_zero i)
      · cases text with
        | nil =>
            rw [show replace pat mark [] = [] from rfl, List.append_nil] at h
            exact hcopied h
        | cons c rest =>
            rw [replace_cons hstart, List.append_cons] at h
            refine ih rest.length (by rw [← hlength]; exact Nat.lt_succ_self _) _ ?_ rfl h
            intro i hi
            rw [← List.append_cons]
            by_cases hlast : i = before.length
            · rw [hlast, Occurs, List.drop_left]
              exact hstart
            · rw [List.length_append, List.length_singleton] at hi
              exact hbefore i (by omega)

theorem not_infix_replace (hne : pat ≠ []) (hmark : mark ≠ []) (hfresh : ∀ c ∈ pat, c ∉ mark)
    (text : List α) : ¬ pat <:+: replace pat mark text :=
  not_infix_replace_append hne hmark hfresh [] fun i hi =>
    absurd hi (Nat.not_lt_zero i)

/-! ## One pattern after the other -/

/-- `for pat in pats: text = text.replace(pat, mark)`. -/
def replaceAll (mark : List α) (pats : List (List α)) (text : List α) : List α :=
  pats.foldl (fun text pat => replace pat mark text) text

theorem infix_of_infix_replaceAll {word : List α} {pats : List (List α)}
    (hpats : ∀ pat ∈ pats, pat ≠ []) (hmark : mark ≠ []) (hfresh : ∀ c ∈ word, c ∉ mark)
    (h : word <:+: replaceAll mark pats text) : word <:+: text := by
  induction pats generalizing text with
  | nil => exact h
  | cons pat pats ih =>
      have hrest := ih (fun p hp => hpats p (List.mem_cons_of_mem _ hp)) h
      exact infix_of_infix_replace (hpats pat (List.mem_cons_self ..)) hmark hfresh
        [] hrest

/-- In whatever order they are replaced, none of the patterns is left. -/
theorem not_infix_replaceAll {pats : List (List α)} (hpats : ∀ pat ∈ pats, pat ≠ [])
    (hmark : mark ≠ []) (hfresh : ∀ pat ∈ pats, ∀ c ∈ pat, c ∉ mark) {pat : List α}
    (hpat : pat ∈ pats) : ¬ pat <:+: replaceAll mark pats text := by
  induction pats generalizing text with
  | nil => cases hpat
  | cons first pats ih =>
      have hne := fun p hp => hpats p (List.mem_cons_of_mem first hp)
      rcases List.mem_cons.mp hpat with rfl | hpat
      · intro h
        have hfirst := hfresh pat (List.mem_cons_self ..)
        exact not_infix_replace (hpats pat (List.mem_cons_self ..)) hmark hfirst text
          (infix_of_infix_replaceAll hne hmark hfirst h)
      · exact ih hne (fun p hp => hfresh p (List.mem_cons_of_mem _ hp)) hpat

end Python

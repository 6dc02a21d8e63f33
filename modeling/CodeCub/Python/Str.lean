import Mathlib.Data.List.DropRight
import Mathlib.Data.List.AList

/-!
# Python strings and dictionaries

The parts of `str` and `dict` that the models below lean on, over arbitrary
keys and values.  A dictionary is Mathlib's association list with distinct keys;
insertion order is not observed by any of its users.
-/

namespace Python

/-- A Python dictionary whose iteration order does not matter. -/
abbrev Dict (α β : Type) := AList (fun _ : α => β)

/-- `str.isspace` on one character: the Unicode characters of category `Zs` or
of bidirectional class `WS`, `B` or `S`. -/
def isSpace (c : Char) : Bool :=
  let n := c.toNat
  (0x09 ≤ n && n ≤ 0x0d) || (0x1c ≤ n && n ≤ 0x20) || n == 0x85 || n == 0xa0 || n == 0x1680 ||
    (0x2000 ≤ n && n ≤ 0x200a) || n == 0x2028 || n == 0x2029 || n == 0x202f || n == 0x205f ||
    n == 0x3000

instance lawfulStringPair : LawfulBEq (String × String) := inferInstance

def stripList {α : Type} (p : α → Bool) (l : List α) : List α :=
  (l.dropWhile p).rdropWhile p

/-- `str.strip()`. -/
def strip (s : String) : String := String.ofList (stripList isSpace s.toList)

theorem dropWhile_rdropWhile {α : Type} {p : α → Bool} {l : List α}
    (h : l.dropWhile p = l) : (l.rdropWhile p).dropWhile p = l.rdropWhile p := by
  rw [List.dropWhile_eq_self_iff]
  intro hpos
  have hpre := l.rdropWhile_prefix p
  have hlpos : 0 < l.length := Nat.lt_of_lt_of_le hpos hpre.length_le
  rw [hpre.getElem hpos]
  exact List.dropWhile_eq_self_iff.mp h hlpos

theorem stripList_stripList {α : Type} (p : α → Bool) (l : List α) :
    stripList p (stripList p l) = stripList p l := by
  unfold stripList
  rw [dropWhile_rdropWhile (List.dropWhile_idempotent p l), List.rdropWhile_idempotent]

@[simp] theorem strip_strip (s : String) : strip (strip s) = strip s := by
  simp [strip, stripList_stripList]

section Stripped

variable {α : Type} {p : α → Bool} {a : α} {l part : List α}

/-- A list that stripping leaves alone loses nothing at its front. -/
theorem dropWhile_of_stripped (h : stripList p l = l) : l.dropWhile p = l := by
  apply (List.dropWhile_sublist p).eq_of_length_le
  have hle := (List.rdropWhile_prefix p (l.dropWhile p)).length_le
  rw [← stripList, h] at hle
  exact hle

theorem rdropWhile_of_stripped (h : stripList p l = l) : l.rdropWhile p = l := by
  rw [stripList, dropWhile_of_stripped h] at h
  exact h

theorem first_of_stripped {rest : List α} (h : stripList p (a :: rest) = a :: rest) :
    p a = false := by
  have hfirst := List.dropWhile_eq_self_iff.mp (dropWhile_of_stripped h) (Nat.succ_pos _)
  rw [Bool.not_eq_true] at hfirst
  exact hfirst

theorem last_of_stripped (hne : l ≠ []) (h : stripList p l = l) :
    ∃ init a, l = init ++ [a] ∧ p a = false := by
  have hlast := List.rdropWhile_eq_self_iff.mp (rdropWhile_of_stripped h) hne
  rw [Bool.not_eq_true] at hlast
  exact ⟨l.dropLast, l.getLast hne, (List.dropLast_append_getLast hne).symm, hlast⟩

theorem stripList_of_ends (hhead : ∀ a ∈ l.head?, p a = false)
    (hlast : ∀ a ∈ l.getLast?, p a = false) : stripList p l = l := by
  have hdrop : l.dropWhile p = l := by
    cases l with
    | nil => rfl
    | cons a rest => rw [List.dropWhile_cons_of_neg (by rw [hhead a rfl]; exact Bool.false_ne_true)]
  rw [stripList, hdrop, List.rdropWhile_eq_self_iff]
  intro hne
  rw [hlast (l.getLast hne) (List.getLast?_eq_some_getLast hne)]
  exact Bool.false_ne_true

theorem rdropWhile_append_of_all {after : List α} (hafter : ∀ a ∈ after, p a = true) :
    (l ++ after).rdropWhile p = l.rdropWhile p := by
  unfold List.rdropWhile
  rw [List.reverse_append, List.dropWhile_append_of_pos]
  exact fun a ha => hafter a (List.mem_reverse.mp ha)

/-- Around a list that stripping leaves alone, everything else goes. -/
theorem stripList_padded {before after : List α} (hbefore : ∀ a ∈ before, p a = true)
    (hafter : ∀ a ∈ after, p a = true) (h : stripList p l = l) :
    stripList p (before ++ (l ++ after)) = l := by
  rw [stripList, List.dropWhile_append_of_pos hbefore]
  cases l with
  | nil =>
      rw [List.nil_append, List.dropWhile_eq_nil_iff.mpr hafter]
      rfl
  | cons a rest =>
      have ha : ¬ p a = true := by
        rw [first_of_stripped h]
        exact Bool.false_ne_true
      rw [List.cons_append, List.dropWhile_cons_of_neg ha, ← List.cons_append,
        rdropWhile_append_of_all hafter, rdropWhile_of_stripped h]

theorem infix_dropWhile {rest : List α} (ha : p a = false) (h : a :: rest <:+: l) :
    a :: rest <:+: l.dropWhile p := by
  induction l with
  | nil =>
      rw [List.infix_nil] at h
      cases h
  | cons b l ih =>
      rw [List.dropWhile_cons]
      split
      · next hb =>
          rcases List.infix_cons_iff.mp h with hprefix | hinfix
          · rw [List.cons_prefix_cons] at hprefix
            rw [← hprefix.1, ha] at hb
            cases hb
          · exact ih hinfix
      · exact h

theorem infix_rdropWhile {init : List α} (ha : p a = false) (h : init ++ [a] <:+: l) :
    init ++ [a] <:+: l.rdropWhile p := by
  have hreverse : a :: init.reverse <:+: l.reverse := by
    rw [← List.reverse_infix, List.reverse_reverse, List.reverse_cons, List.reverse_reverse]
    exact h
  have hdrop := infix_dropWhile ha hreverse
  rw [← List.reverse_infix, List.reverse_cons, List.reverse_reverse] at hdrop
  exact hdrop

/-- A part without blanks around it outlives the stripping of the whole. -/
theorem infix_stripList (hpart : stripList p part = part) (h : part <:+: l) :
    part <:+: stripList p l := by
  cases part with
  | nil => exact List.nil_infix
  | cons a rest =>
      have hfront := infix_dropWhile (first_of_stripped hpart) h
      obtain ⟨init, b, hends, hb⟩ := last_of_stripped (List.cons_ne_nil a rest) hpart
      rw [hends] at hfront ⊢
      exact infix_rdropWhile hb hfront

/-- What is left is a part of the list. -/
theorem isInfix_stripList (p : α → Bool) (l : List α) : stripList p l <:+: l :=
  (List.rdropWhile_prefix p _).isInfix.trans (List.dropWhile_suffix p).isInfix

theorem infix_intercalate {sep : List α} {parts : List (List α)} (h : part ∈ parts) :
    part <:+: sep.intercalate parts := by
  induction parts with
  | nil => cases h
  | cons first rest ih =>
      cases rest with
      | nil =>
          obtain rfl := List.mem_singleton.mp h
          have hone : sep.intercalate [part] = part := List.intercalate_singleton
          exact hone.symm ▸ List.infix_rfl
      | cons second more =>
          rw [List.intercalate_cons_cons, List.append_assoc]
          rcases List.mem_cons.mp h with rfl | h
          · exact (List.prefix_append _ _).isInfix
          · rw [← List.append_assoc]
            exact (ih h).trans (List.suffix_append _ _).isInfix

end Stripped

/-- A text without blanks is its own. -/
theorem stripList_eq_self {α : Type} {p : α → Bool} {l : List α} (h : ∀ a ∈ l, p a = false) :
    stripList p l = l := by
  have hfront : l.dropWhile p = l := by
    cases l with
    | nil => rfl
    | cons a rest => rw [List.dropWhile_cons_of_neg (by simp [h a (List.mem_cons_self ..)])]
  rw [stripList, hfront, List.rdropWhile_eq_self_iff]
  intro hne
  simp [h _ (List.getLast_mem hne)]

/-! ## Blank strings and substrings -/

theorem mem_dropWhile {α : Type} {p : α → Bool} {l : List α} {a : α} (ha : a ∈ l)
    (hp : p a = false) : a ∈ l.dropWhile p := by
  rw [← List.takeWhile_append_dropWhile (p := p) (l := l), List.mem_append] at ha
  rcases ha with ha | ha
  · have := List.mem_takeWhile_imp ha
    rw [hp] at this
    cases this
  · exact ha

theorem mem_stripList {α : Type} {p : α → Bool} {l : List α} {a : α} (ha : a ∈ l)
    (hp : p a = false) : a ∈ stripList p l := by
  unfold stripList List.rdropWhile
  rw [List.mem_reverse]
  exact mem_dropWhile (List.mem_reverse.mpr (mem_dropWhile ha hp)) hp

/-- `str.strip()` is empty exactly on strings of white space. -/
theorem strip_ne_empty_iff {s : String} : strip s ≠ "" ↔ ∃ a ∈ s.toList, isSpace a = false := by
  constructor
  · intro h
    by_contra hall
    push Not at hall
    apply h
    have hdrop : s.toList.dropWhile isSpace = [] := by
      rw [List.dropWhile_eq_nil_iff]
      intro a ha
      simpa using hall a ha
    simp [strip, stripList, hdrop]
  · intro h hempty
    obtain ⟨a, ha, hspace⟩ := h
    have hmem := mem_stripList ha hspace
    rw [strip, String.ofList_eq_empty_iff] at hempty
    rw [hempty] at hmem
    cases hmem

/-- `text in s`. -/
def Contains (s text : String) : Prop := text.toList <:+: s.toList

theorem contains_append_right (a b : String) : Contains (a ++ b) b := by
  rw [Contains, String.toList_append]
  exact (List.suffix_append _ _).isInfix

theorem contains_append_left (a b : String) : Contains (a ++ b) a := by
  rw [Contains, String.toList_append]
  exact (List.prefix_append _ _).isInfix

theorem Contains.trans {a b d : String} (hab : Contains a b) (hbd : Contains b d) : Contains a d :=
  List.IsInfix.trans hbd hab

theorem contains_intercalate {sep part : String} {parts : List String} (h : part ∈ parts) :
    Contains (sep.intercalate parts) part := by
  induction parts with
  | nil => cases h
  | cons first rest ih =>
      cases rest with
      | nil =>
          rw [List.mem_singleton] at h
          subst h
          simp [Contains]
      | cons second more =>
          rw [String.intercalate_cons_cons]
          rcases List.mem_cons.mp h with h | h
          · subst h
            exact (contains_append_left _ _).trans (contains_append_left _ _)
          · exact (contains_append_right _ _).trans (ih h)

theorem strip_ne_empty_of_contains {s text : String} (h : Contains s text) (ht : strip text ≠ "") :
    strip s ≠ "" := by
  obtain ⟨a, ha, hspace⟩ := strip_ne_empty_iff.mp ht
  exact strip_ne_empty_iff.mpr ⟨a, h.subset ha, hspace⟩

/-! ## Exceptions -/

/-- A computation that ends well had a first part that did. -/
theorem bind_eq_ok {ε α β : Type} {x : Except ε α} {f : α → Except ε β} {b : β}
    (h : (x >>= f) = .ok b) : ∃ a, x = .ok a ∧ f a = .ok b := by
  cases x with
  | error e => cases h
  | ok a => exact ⟨a, rfl, h⟩

theorem ok_bind {ε α β : Type} (a : α) (f : α → Except ε β) : (Except.ok a >>= f) = f a := rfl

end Python

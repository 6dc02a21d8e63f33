import CodeCub.Python.Lines

/-!
# Clipped texts

`clip` of `codecub/workspace.py` says at the end of a clipped text how much is missing, so
that the text it gives is longer than the limit.
-/

namespace CodeCub
namespace Layered

open Python

def truncation (missing : Nat) : Str :=
  "\n...[truncated ".toList ++ (Nat.toDigits 10 missing ++ " chars]".toList)

def clip (text : Str) (limit : Nat) : Str :=
  if text.length ≤ limit then text else text.take limit ++ truncation (text.length - limit)

variable {text : Str} {limit : Nat}

theorem length_truncation (missing : Nat) :
    (truncation missing).length = 22 + (Nat.toDigits 10 missing).length := by
  show ("\n...[truncated ".toList ++ (Nat.toDigits 10 missing ++ " chars]".toList)).length = _
  rw [List.length_append, List.length_append, show "\n...[truncated ".toList.length = 15 from rfl,
    show " chars]".toList.length = 7 from rfl]
  omega

theorem chars_last : " chars]".toList = " chars".toList ++ [']'] := rfl

theorem truncation_last (missing : Nat) : ∃ init, truncation missing = init ++ [']'] :=
  ⟨"\n...[truncated ".toList ++ (Nat.toDigits 10 missing ++ " chars".toList), by
    unfold truncation
    rw [chars_last]
    simp only [List.append_assoc]⟩

theorem truncation_injective {a b : Nat} (h : truncation a = truncation b) : a = b := by
  have hdigits := List.append_cancel_right (List.append_cancel_left h)
  have ha := Nat.ofDigitChars_toDigits (n := a) (b := 10) (by decide) (by decide)
  rw [hdigits, Nat.ofDigitChars_toDigits (by decide) (by decide)] at ha
  exact ha.symm

/-- Only one number is told by a text of its own length. -/
theorem length_truncation_eq_iff (missing : Nat) :
    (truncation missing).length = missing ↔ missing = 24 := by
  have hle := fun k hk => Nat.length_toDigits_le_iff (n := missing) (k := k) (b := 10) (by decide) hk
  rw [length_truncation]
  constructor
  · intro h
    have hpos : 0 < (Nat.toDigits 10 missing).length := Nat.length_toDigits_pos
    by_cases hsmall : missing < 100
    · have hfew := (hle 2 (by decide)).mpr hsmall
      have hmany := mt (hle 1 (by decide)).mp (show ¬ missing < 10 by omega)
      omega
    · -- a number of many digits is much larger than their count
      have hlarge : missing < 10 ^ (missing - 23) := by
        obtain ⟨k, rfl⟩ : ∃ k, missing = k + 24 := ⟨missing - 24, by omega⟩
        have hk : k < 10 ^ k := Nat.lt_pow_self (by decide)
        rw [show k + 24 - 23 = k + 1 by omega, pow_succ]
        omega
      have hfew := (hle (missing - 23) (by omega)).mpr hlarge
      omega
  · rintro rfl
    decide

theorem clip_of_le (h : text.length ≤ limit) : clip text limit = text := if_pos h

theorem clip_of_lt (h : limit < text.length) :
    clip text limit = text.take limit ++ truncation (text.length - limit) :=
  if_neg (Nat.not_le.mpr h)

/-- Clipping the text again changes nothing. -/
def Settles (text : Str) (limit : Nat) : Prop := text.length ≤ limit ∨ text.length = limit + 24

instance (text : Str) (limit : Nat) : Decidable (Settles text limit) :=
  inferInstanceAs (Decidable (_ ∨ _))

theorem clip_clip_iff (text : Str) (limit : Nat) :
    clip (clip text limit) limit = clip text limit ↔ Settles text limit := by
  unfold Settles
  by_cases hshort : text.length ≤ limit
  · rw [clip_of_le hshort, clip_of_le hshort]
    exact iff_of_true rfl (Or.inl hshort)
  · have hlt : limit < text.length := by omega
    have hlength : (text.take limit).length = limit := List.length_take_of_le (by omega)
    have htotal : (clip text limit).length =
        limit + (truncation (text.length - limit)).length := by
      rw [clip_of_lt hlt, List.length_append, hlength]
    have hagain : limit < (clip text limit).length := by
      rw [htotal, length_truncation]
      omega
    have hfront : (clip text limit).take limit = text.take limit := by
      rw [clip_of_lt hlt, List.take_left' hlength]
    have hmissing : (clip text limit).length - limit =
        (truncation (text.length - limit)).length := by
      rw [htotal, Nat.add_sub_cancel_left]
    rw [clip_of_lt hagain, hfront, hmissing, clip_of_lt hlt, List.append_right_inj]
    constructor
    · intro h
      have h24 := (length_truncation_eq_iff _).mp (truncation_injective h)
      omega
    · intro h
      have h24 : text.length - limit = 24 := by omega
      rw [(length_truncation_eq_iff _).mpr h24]

theorem clip_eq_nil_iff : clip text limit = [] ↔ text = [] := by
  by_cases hshort : text.length ≤ limit
  · rw [clip_of_le hshort]
  · rw [clip_of_lt (by omega)]
    refine iff_of_false ?_ ?_
    · intro h
      have hlength := congrArg List.length (List.append_eq_nil_iff.mp h).2
      rw [length_truncation, List.length_nil] at hlength
      omega
    · rintro rfl
      exact hshort (Nat.zero_le _)

/-- No blanks appear around a clipped text. -/
theorem strip_clip (hlimit : 0 < limit) (h : stripList isSpace text = text) :
    stripList isSpace (clip text limit) = clip text limit := by
  by_cases hshort : text.length ≤ limit
  · rw [clip_of_le hshort, h]
  rw [clip_of_lt (by omega)]
  apply stripList_of_ends
  · cases text with
    | nil => exact absurd (Nat.zero_le _) hshort
    | cons c rest =>
        obtain ⟨n, rfl⟩ : ∃ n, limit = n + 1 := ⟨limit - 1, by omega⟩
        intro d hd
        cases hd
        exact first_of_stripped h
  · obtain ⟨init, hinit⟩ := truncation_last (text.length - limit)
    rw [hinit, ← List.append_assoc, List.getLast?_concat]
    intro c hc
    cases hc
    rfl

/-! ## `_dedupe_preserve_order` -/

def dedupeFrom (seen : List Str) : List Str → List Str
  | [] => []
  | item :: rest =>
      if item ∈ seen then dedupeFrom seen rest else item :: dedupeFrom (item :: seen) rest

def dedupe (items : List Str) : List Str := dedupeFrom [] items

theorem mem_dedupeFrom {seen items : List Str} {item : Str} (h : item ∈ dedupeFrom seen items) :
    item ∈ items ∧ item ∉ seen := by
  induction items generalizing seen with
  | nil => cases h
  | cons first rest ih =>
      unfold dedupeFrom at h
      split at h
      · exact ⟨List.mem_cons_of_mem _ (ih h).1, (ih h).2⟩
      · next hnew =>
          rcases List.mem_cons.mp h with rfl | h
          · exact ⟨List.mem_cons_self, hnew⟩
          · have hrest := ih h
            rw [List.mem_cons, not_or] at hrest
            exact ⟨List.mem_cons_of_mem _ hrest.1, hrest.2.2⟩

theorem nodup_dedupeFrom (seen items : List Str) : (dedupeFrom seen items).Nodup := by
  induction items generalizing seen with
  | nil => exact List.nodup_nil
  | cons first rest ih =>
      unfold dedupeFrom
      split
      · exact ih seen
      · refine List.nodup_cons.mpr ⟨fun hmem => ?_, ih (first :: seen)⟩
        exact (mem_dedupeFrom hmem).2 List.mem_cons_self

theorem dedupeFrom_of_nodup {seen items : List Str} (hnodup : items.Nodup)
    (hnew : ∀ item ∈ items, item ∉ seen) : dedupeFrom seen items = items := by
  induction items generalizing seen with
  | nil => rfl
  | cons first rest ih =>
      rw [List.nodup_cons] at hnodup
      rw [List.forall_mem_cons] at hnew
      rw [dedupeFrom, if_neg hnew.1, ih hnodup.2]
      intro item hitem
      rw [List.mem_cons, not_or]
      refine ⟨?_, hnew.2 item hitem⟩
      rintro rfl
      exact hnodup.1 hitem

theorem dedupe_of_nodup {items : List Str} (h : items.Nodup) : dedupe items = items :=
  dedupeFrom_of_nodup h fun _ _ => List.not_mem_nil

theorem nodup_dedupe (items : List Str) : (dedupe items).Nodup := nodup_dedupeFrom [] items

theorem mem_of_mem_dedupe {items : List Str} {item : Str} (h : item ∈ dedupe items) :
    item ∈ items :=
  (mem_dedupeFrom h).1

end Layered
end CodeCub

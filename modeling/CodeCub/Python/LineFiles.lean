import CodeCub.Python.Lines
import CodeCub.Python.Newlines

/-!
# Files of lines

A text that is written as `"\n".join(lines).rstrip() + "\n"` and read with `splitlines`.
-/

namespace Python

/-- `"\n".join(lines)`. -/
def joinLines : List Str → Str
  | [] => []
  | [line] => line
  | line :: next :: rest => line ++ '\n' :: joinLines (next :: rest)

/-- `text.rstrip()`. -/
def rstrip (text : Str) : Str := text.rdropWhile isSpace

def writeLines (lines : List Str) : Str := rstrip (joinLines lines) ++ ['\n']

def readLines (text : Str) : List Str := splitlines (universalNewlines text)

theorem joinLines_concat (lines : List Str) (last : Str) :
    joinLines (lines ++ [last]) = lines.flatMap (fun line => line ++ ['\n']) ++ last := by
  induction lines with
  | nil => rfl
  | cons line lines ih =>
      obtain ⟨next, rest, hrest⟩ : ∃ next rest, lines ++ [last] = next :: rest := by
        cases lines with
        | nil => exact ⟨last, [], rfl⟩
        | cons next rest => exact ⟨next, rest ++ [last], rfl⟩
      rw [List.cons_append, hrest, joinLines, ← hrest, ih, List.flatMap_cons]
      simp

/-- The end of a text that does not end with a blank. -/
theorem rstrip_append {front last : Str} (hlast : ∃ init c, last = init ++ [c] ∧ isSpace c = false) :
    rstrip (front ++ last) = front ++ last := by
  obtain ⟨init, c, rfl, hc⟩ := hlast
  unfold rstrip
  rw [← List.append_assoc, List.rdropWhile_concat_neg]
  rw [hc]
  exact Bool.false_ne_true

/-- Lines without line boundaries of which the last one does not end with a blank are read
back. -/
theorem readLines_writeLines {lines : List Str} {last : Str}
    (hlines : ∀ line ∈ lines ++ [last], ∀ c ∈ line, isLineBreak c = false)
    (hlast : ∃ init c, last = init ++ [c] ∧ isSpace c = false) :
    readLines (writeLines (lines ++ [last])) = lines ++ [last] := by
  have htext : writeLines (lines ++ [last]) =
      (lines ++ [last]).flatMap (fun line => line ++ ['\n']) := by
    unfold writeLines
    rw [joinLines_concat, rstrip_append hlast, List.flatMap_append]
    simp
  have hreturn : '\r' ∉ (lines ++ [last]).flatMap (fun line => line ++ ['\n']) := by
    intro hmem
    obtain ⟨line, hline, hmem⟩ := List.mem_flatMap.mp hmem
    rcases List.mem_append.mp hmem with hmem | hmem
    · exact absurd (hlines line hline _ hmem) (by decide)
    · exact absurd (List.mem_singleton.mp hmem) (by decide)
  have hsplit := splitlines_lines hlines []
  rw [List.append_nil, splitlines, List.append_nil] at hsplit
  unfold readLines
  rw [htext, universalNewlines_of_not_mem hreturn, hsplit]

end Python

import CodeCub.Python.CodePoint
import CodeCub.Python.Newlines
import CodeCub.Python.Occurrences

/-!
# The `patch_file` tool

The check of the arguments and the tool itself in `codecub/tools.py`.  Both read the file
as text, so they see its line ends as `\n`, and both count the occurrences of `old_text`
without overlaps.  The platform writes `\n` as it is.
-/

namespace CodeCub
namespace Tooling

open Python

/-- What `patch_file` raises: `ValueError` with a message, or what the codec raises. -/
inductive PatchError
  | value (message : String)
  | decode
  | encode
  deriving DecidableEq, Repr

/-- The arguments besides the path; `newText` is `none` where the key is missing. -/
structure PatchArgs where
  oldText : List CodePoint := []
  newText : Option (List CodePoint)

/-- The file afterwards and what the call returned. -/
structure Patched where
  content : Option Bytes
  result : Except PatchError String

/-- `path.read_text(encoding="utf-8")`. -/
def readText (data : Bytes) : Except PatchError (List CodePoint) :=
  match decodeStrict data with
  | some text => .ok (ofStr (universalNewlines text))
  | none => .error .decode

/-- `path.write_text(text, encoding="utf-8")`, which empties the file before it encodes the
text. -/
def writeText (relative : String) (text : List CodePoint) : Patched :=
  match encodeStrict text with
  | some data => { content := some data, result := .ok ("patched " ++ relative) }
  | none => { content := some [], result := .error .encode }

/-- What `validate_tool` and `tool_patch_file` both ask before anything is written;
`content` is `none` where the path is no file. -/
def patchChecks (content : Option Bytes) (args : PatchArgs) :
    Except PatchError (List CodePoint × List CodePoint) :=
  match content with
  | none => .error (.value "path is not a file")
  | some data =>
      if args.oldText = [] then .error (.value "old_text must not be empty")
      else
        match args.newText with
        | none => .error (.value "missing new_text")
        | some new =>
            (readText data).bind fun text =>
              if Python.count args.oldText text = 1 then .ok (text, new)
              else
                .error (.value ("old_text must occur exactly once, found " ++
                  toString (Python.count args.oldText text)))

def validatePatchFile (content : Option Bytes) (args : PatchArgs) : Except PatchError Unit :=
  (patchChecks content args).map fun _ => ()

def toolPatchFile (relative : String) (content : Option Bytes) (args : PatchArgs) : Patched :=
  match patchChecks content args with
  | .error error => { content := content, result := .error error }
  | .ok (text, new) => writeText relative (replaceFirst args.oldText new text)

/-- Validation, then execution. -/
def patchFile (relative : String) (content : Option Bytes) (args : PatchArgs) : Patched :=
  match validatePatchFile content args with
  | .error error => { content := content, result := .error error }
  | .ok () => toolPatchFile relative content args

section Patch

variable {relative : String} {data : Bytes} {old new : List CodePoint} {text : Str}

theorem patchFile_of_error {content : Option Bytes} {args : PatchArgs} {error : PatchError}
    (h : patchChecks content args = .error error) :
    patchFile relative content args = { content := content, result := .error error } := by
  unfold patchFile validatePatchFile
  rw [h]
  rfl

theorem patchFile_of_ok {content : Option Bytes} {args : PatchArgs}
    {read : List CodePoint} (h : patchChecks content args = .ok (read, new)) :
    patchFile relative content args =
      writeText relative (replaceFirst args.oldText new read) := by
  unfold patchFile validatePatchFile
  rw [h]
  show toolPatchFile relative content args = _
  rw [toolPatchFile, h]

theorem patchChecks_some (hold : old ≠ []) :
    patchChecks (some data) ⟨old, some new⟩ = (readText data).bind fun text =>
      if Python.count old text = 1 then .ok (text, new)
      else .error (.value ("old_text must occur exactly once, found " ++
        toString (Python.count old text))) :=
  if_neg hold

theorem readText_of_decode (hdata : decodeStrict data = some text) :
    readText data = .ok (ofStr (universalNewlines text)) := by
  unfold readText
  rw [hdata]

/-- What is not UTF-8 stays as it is. -/
theorem patchFile_undecodable (hold : old ≠ []) (hdata : decodeStrict data = none) :
    patchFile relative (some data) ⟨old, some new⟩ =
      { content := some data, result := .error .decode } := by
  apply patchFile_of_error
  rw [patchChecks_some hold, readText, hdata]
  rfl

theorem patchFile_miscounted (hold : old ≠ []) (hdata : decodeStrict data = some text)
    (hcount : Python.count old (ofStr (universalNewlines text)) ≠ 1) :
    patchFile relative (some data) ⟨old, some new⟩ =
      { content := some data
        result := .error (.value ("old_text must occur exactly once, found " ++
          toString (Python.count old (ofStr (universalNewlines text))))) } := by
  apply patchFile_of_error
  rw [patchChecks_some hold, readText_of_decode hdata]
  exact if_neg hcount

theorem patchFile_counted (hold : old ≠ []) (hdata : decodeStrict data = some text)
    (hcount : Python.count old (ofStr (universalNewlines text)) = 1) :
    patchFile relative (some data) ⟨old, some new⟩ =
      writeText relative (replaceFirst old new (ofStr (universalNewlines text))) := by
  apply patchFile_of_ok
  rw [patchChecks_some hold, readText_of_decode hdata]
  exact if_pos hcount

/-! ## One place -/

/-- `old` stands in the file behind `offset` symbols. -/
def MatchesAt (data : Bytes) (old : List CodePoint) (offset : Nat) : Prop :=
  ∃ before after, before.length = offset ∧ encodeStrict (before ++ old ++ after) = some data

def Succeeds (relative : String) (data : Bytes) (old new : List CodePoint) : Prop :=
  (patchFile relative (some data) ⟨old, some new⟩).result = .ok ("patched " ++ relative)

/-- The call succeeds exactly on a single match and replaces it, and else leaves the file
alone. -/
structure EditsOnePlace (relative : String) (data : Bytes) (old new : List CodePoint) :
    Prop where
  succeeds : Succeeds relative data old new ↔ ∃! offset, MatchesAt data old offset
  edits : Succeeds relative data old new → ∀ before after,
    encodeStrict (before ++ old ++ after) = some data →
      (patchFile relative (some data) ⟨old, some new⟩).content =
        encodeStrict (before ++ new ++ after)
  untouched : ¬ Succeeds relative data old new →
    (patchFile relative (some data) ⟨old, some new⟩).content = some data

/-- A single match stands in a file without carriage returns and gets a text that can be
encoded.  Where there is no single match, the occurrences in the text as it is read do not
all start within the first one. -/
def OneReading (data : Bytes) (old new : List CodePoint) : Prop :=
  ∀ text, decodeStrict data = some text →
    ((∃! offset, Occurs old (ofStr text) offset) → '\r' ∉ text ∧ (toStr new).isSome) ∧
      ((¬ ∃! offset, Occurs old (ofStr text) offset) →
        ¬ Clustered old (ofStr (universalNewlines text)))

theorem encodeStrict_of_decode (hdata : decodeStrict data = some text) {whole : List CodePoint} :
    encodeStrict whole = some data ↔ whole = ofStr text := by
  rw [decodeStrict_eq_some_iff] at hdata
  rw [encodeStrict_eq_some_iff]
  constructor
  · rintro ⟨chars, rfl, hchars⟩
    rw [encodeUtf8_injective (hdata.symm.trans hchars)]
  · rintro rfl
    exact ⟨text, rfl, hdata⟩

theorem matchesAt_iff (hdata : decodeStrict data = some text) {offset : Nat} (hold : old ≠ []) :
    MatchesAt data old offset ↔ Occurs old (ofStr text) offset := by
  constructor
  · rintro ⟨before, after, rfl, hwhole⟩
    rw [encodeStrict_of_decode hdata] at hwhole
    unfold Occurs
    rw [← hwhole, List.append_assoc, List.drop_left]
    exact List.prefix_append _ _
  · intro hoccurs
    have hle := hoccurs.length_le hold
    obtain ⟨after, hafter⟩ := hoccurs
    refine ⟨(ofStr text).take offset, after, ?_, ?_⟩
    · rw [List.length_take]
      omega
    · rw [encodeStrict_of_decode hdata, List.append_assoc, hafter, List.take_append_drop]

theorem not_matchesAt (hdata : decodeStrict data = none) (offset : Nat) :
    ¬ MatchesAt data old offset := by
  rintro ⟨before, after, -, hwhole⟩
  obtain ⟨chars, -, hchars⟩ := encodeStrict_eq_some_iff.mp hwhole
  rw [← decodeStrict_eq_some_iff, hdata] at hchars
  cases hchars

/-- A single match is counted as one. -/
theorem clustered_of_unique {symbols : List CodePoint} (hold : old ≠ [])
    (h : ∃! offset, Occurs old symbols offset) : Clustered old symbols := by
  obtain ⟨offset, hoccurs, hunique⟩ := h
  have hpos := List.length_pos_iff.mpr hold
  refine ⟨offset, hoccurs, fun other hother => ?_⟩
  have hsame := hunique other hother
  omega

theorem succeeds_of_encode (hold : old ≠ []) (hdata : decodeStrict data = some text)
    (hcount : Python.count old (ofStr (universalNewlines text)) = 1) :
    Succeeds relative data old new ↔
      (encodeStrict (replaceFirst old new (ofStr (universalNewlines text)))).isSome := by
  unfold Succeeds
  rw [patchFile_counted hold hdata hcount, writeText]
  cases encodeStrict (replaceFirst old new (ofStr (universalNewlines text))) with
  | none => simp
  | some written => simp

theorem not_succeeds_of_count (hold : old ≠ []) (hdata : decodeStrict data = some text)
    (hcount : Python.count old (ofStr (universalNewlines text)) ≠ 1) :
    ¬ Succeeds relative data old new := by
  unfold Succeeds
  rw [patchFile_miscounted hold hdata hcount]
  simp

/-- A file with carriage returns is written without them, around the match too. -/
theorem not_editsOnePlace_of_return (hold : old ≠ []) (hdata : decodeStrict data = some text)
    (hone : ∃! offset, MatchesAt data old offset) (hreturn : '\r' ∈ text) :
    ¬ EditsOnePlace relative data old new := by
  intro h
  have hsucceeds := h.succeeds.mpr hone
  obtain ⟨-, ⟨before, after, -, hwhole⟩, -⟩ := hone
  have hedited := h.edits hsucceeds before after hwhole
  have hcount : Python.count old (ofStr (universalNewlines text)) = 1 := by
    by_contra hcount
    exact not_succeeds_of_count hold hdata hcount hsucceeds
  have hread : old <:+: ofStr (universalNewlines text) := by
    obtain ⟨i, hoccurs, -⟩ := (count_eq_one_iff hold).mp hcount
    exact exists_occurs_iff.mpr ⟨i, hoccurs⟩
  obtain ⟨front, back, hsplit, hreplaced⟩ := @exists_replaceFirst _ _ _ new _ hold hread
  rw [succeeds_of_encode hold hdata hcount] at hsucceeds
  obtain ⟨written, hwritten⟩ := Option.isSome_iff_exists.mp hsucceeds
  rw [patchFile_counted hold hdata hcount, writeText, hwritten] at hedited
  have hsame : front ++ new ++ back = before ++ new ++ after := by
    rw [← hreplaced]
    exact encodeStrict_injective hwritten hedited.symm
  -- `new` has as many carriage returns on both sides, and what was read has none
  have hnone : CodePoint.char '\r' ∉ front ++ old ++ back := by
    rw [← hsplit, char_mem_ofStr]
    exact return_not_mem_universalNewlines text
  have hsome : CodePoint.char '\r' ∈ before ++ old ++ after := by
    rw [(encodeStrict_of_decode hdata).mp hwhole, char_mem_ofStr]
    exact hreturn
  have hcounts := congrArg (List.count (CodePoint.char '\r')) hsame
  rw [← List.count_eq_zero] at hnone
  rw [← List.count_pos_iff] at hsome
  simp only [List.count_append] at hcounts hnone hsome
  omega

/-- Where occurrences overlap, or a line end makes one, the edit is not of a single match. -/
theorem not_editsOnePlace_of_clustered (hold : old ≠ []) (hdata : decodeStrict data = some text)
    (hmany : ¬ ∃! offset, MatchesAt data old offset)
    (hclustered : Clustered old (ofStr (universalNewlines text))) :
    ¬ EditsOnePlace relative data old new := by
  intro h
  have hfails : ¬ Succeeds relative data old new := mt h.succeeds.mp hmany
  have hcount := (count_eq_one_iff hold).mpr hclustered
  have huntouched := h.untouched hfails
  rw [succeeds_of_encode hold hdata hcount, Option.not_isSome_iff_eq_none] at hfails
  rw [patchFile_counted hold hdata hcount, writeText, hfails] at huntouched
  -- the file was emptied, so it was empty before and `old` is in an empty text
  have hempty : data = [] := (Option.some.inj huntouched).symm
  have htext : text = [] := by
    rw [hempty, show decodeStrict [] = some [] from rfl] at hdata
    exact (Option.some.inj hdata).symm
  obtain ⟨i, hoccurs, -⟩ := hclustered
  rw [htext] at hoccurs
  exact not_occurs_nil hold i hoccurs

theorem editsOnePlace_of_miss (hold : old ≠ []) (hdata : decodeStrict data = some text)
    (hmany : ¬ ∃! offset, MatchesAt data old offset)
    (hapart : ¬ Clustered old (ofStr (universalNewlines text))) :
    EditsOnePlace relative data old new := by
  have hcount := mt (count_eq_one_iff hold).mp hapart
  have hfails : ¬ Succeeds relative data old new := not_succeeds_of_count hold hdata hcount
  refine ⟨iff_of_false hfails hmany, fun h => absurd h hfails, fun _ => ?_⟩
  rw [patchFile_miscounted hold hdata hcount]

theorem editsOnePlace_of_single (hold : old ≠ []) (hdata : decodeStrict data = some text)
    (hone : ∃! offset, Occurs old (ofStr text) offset) (hreturn : '\r' ∉ text) :
    EditsOnePlace relative data old new ↔ (toStr new).isSome := by
  have hread := universalNewlines_of_not_mem hreturn
  have hcount : Python.count old (ofStr (universalNewlines text)) = 1 := by
    rw [hread, count_eq_one_iff hold]
    exact clustered_of_unique hold hone
  have hmatch : ∃! offset, MatchesAt data old offset := by
    simpa only [matchesAt_iff hdata hold] using hone
  have hreplaced : ∀ before after, before ++ old ++ after = ofStr text →
      replaceFirst old new (ofStr (universalNewlines text)) = before ++ new ++ after := by
    intro before after hwhole
    rw [hread, ← hwhole]
    apply replaceFirst_append hold
    intro i hi hoccurs
    rw [hwhole] at hoccurs
    have hhere : Occurs old (ofStr text) before.length := by
      rw [← matchesAt_iff hdata hold]
      exact ⟨before, after, rfl, (encodeStrict_of_decode hdata).mpr hwhole⟩
    have hsame := hone.unique hoccurs hhere
    omega
  have hsucceeds : Succeeds relative data old new ↔ (toStr new).isSome := by
    obtain ⟨-, ⟨before, after, -, hwhole⟩, -⟩ := hmatch
    rw [encodeStrict_of_decode hdata] at hwhole
    rw [succeeds_of_encode hold hdata hcount, hreplaced before after hwhole]
    exact encodeStrict_replaced_isSome hwhole
  constructor
  · intro h
    exact hsucceeds.mp (h.succeeds.mpr hmatch)
  · intro hnew
    have hdone := hsucceeds.mpr hnew
    refine ⟨iff_of_true hdone hmatch, fun _ before after hwhole => ?_, fun h => absurd hdone h⟩
    rw [encodeStrict_of_decode hdata] at hwhole
    obtain ⟨written, hwritten⟩ :=
      Option.isSome_iff_exists.mp ((encodeStrict_replaced_isSome hwhole).mpr hnew)
    rw [patchFile_counted hold hdata hcount, hreplaced before after hwhole, writeText, hwritten]

/-- The edit is of one place exactly when the file has one reading. -/
theorem editsOnePlace_iff (relative : String) (data : Bytes) (old new : List CodePoint)
    (hold : old ≠ []) : EditsOnePlace relative data old new ↔ OneReading data old new := by
  cases hdata : decodeStrict data with
  | none =>
      have hfails : ¬ Succeeds relative data old new := by
        unfold Succeeds
        rw [patchFile_undecodable hold hdata]
        simp
      refine iff_of_true ⟨iff_of_false hfails ?_, fun h => absurd h hfails, fun _ => ?_⟩ ?_
      · rintro ⟨offset, hmatch, -⟩
        exact not_matchesAt hdata offset hmatch
      · rw [patchFile_undecodable hold hdata]
      · intro text htext
        rw [hdata] at htext
        cases htext
  | some text =>
      have hmatch : (∃! offset, MatchesAt data old offset) ↔
          ∃! offset, Occurs old (ofStr text) offset := by
        simp only [matchesAt_iff hdata hold]
      have hreading : OneReading data old new ↔
          ((∃! offset, Occurs old (ofStr text) offset) → '\r' ∉ text ∧ (toStr new).isSome) ∧
            ((¬ ∃! offset, Occurs old (ofStr text) offset) →
              ¬ Clustered old (ofStr (universalNewlines text))) := by
        unfold OneReading
        rw [hdata]
        simp
      rw [hreading]
      by_cases hone : ∃! offset, Occurs old (ofStr text) offset
      · rw [and_iff_left (fun hmany => absurd hone hmany), imp_iff_right hone]
        by_cases hreturn : '\r' ∈ text
        · refine iff_of_false ?_ (fun h => h.1 hreturn)
          exact not_editsOnePlace_of_return hold hdata (hmatch.mpr hone) hreturn
        · rw [and_iff_right hreturn]
          exact editsOnePlace_of_single hold hdata hone hreturn
      · rw [and_iff_right (fun h => absurd h hone), imp_iff_right hone]
        by_cases hclustered : Clustered old (ofStr (universalNewlines text))
        · refine iff_of_false ?_ (not_not_intro hclustered)
          exact not_editsOnePlace_of_clustered hold hdata (mt hmatch.mp hone) hclustered
        · refine iff_of_true ?_ hclustered
          exact editsOnePlace_of_miss hold hdata (mt hmatch.mp hone) hclustered

theorem letter_editsOnePlace_iff : ofStr ['a'] ≠ [] ∧
    (EditsOnePlace "notes.txt" (encodeUtf8 ['a', 'b']) (ofStr ['a']) (ofStr ['c']) ↔
      OneReading (encodeUtf8 ['a', 'b']) (ofStr ['a']) (ofStr ['c'])) :=
  ⟨by decide, editsOnePlace_iff "notes.txt" (encodeUtf8 ['a', 'b']) (ofStr ['a']) (ofStr ['c'])
    (by decide)⟩

/-- Two lines that end in `\r\n`, and a letter of the first one edited. -/
theorem crlf_rewritten :
    Succeeds "notes.txt" (encodeUtf8 ['a', '\r', '\n', 'b']) (ofStr ['a']) (ofStr ['c']) ∧
      (patchFile "notes.txt" (some (encodeUtf8 ['a', '\r', '\n', 'b']))
        ⟨ofStr ['a'], some (ofStr ['c'])⟩).content = some (encodeUtf8 ['c', '\n', 'b']) ∧
      ¬ EditsOnePlace "notes.txt" (encodeUtf8 ['a', '\r', '\n', 'b']) (ofStr ['a'])
        (ofStr ['c']) := by
  have hsucceeds : Succeeds "notes.txt" (encodeUtf8 ['a', '\r', '\n', 'b']) (ofStr ['a'])
      (ofStr ['c']) := rfl
  refine ⟨hsucceeds, rfl, fun h => ?_⟩
  have hedited := h.edits hsucceeds [] (ofStr ['\r', '\n', 'b']) rfl
  exact absurd hedited (by decide)

-- `aa` stands at two places of `aaa`, of which the first is edited
example :
    Succeeds "notes.txt" (encodeUtf8 ['a', 'a', 'a']) (ofStr ['a', 'a']) (ofStr ['b']) ∧
      MatchesAt (encodeUtf8 ['a', 'a', 'a']) (ofStr ['a', 'a']) 0 ∧
      MatchesAt (encodeUtf8 ['a', 'a', 'a']) (ofStr ['a', 'a']) 1 :=
  ⟨rfl, ⟨[], ofStr ['a'], rfl, rfl⟩, ⟨ofStr ['a'], [], rfl, rfl⟩⟩

end Patch

end Tooling
end CodeCub

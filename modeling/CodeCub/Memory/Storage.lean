import CodeCub.Python.JsonSort
import CodeCub.Python.Lines
import CodeCub.Python.Newlines
import CodeCub.Python.Utf8

/-!
# JSONL stores

`codecub/memory_v2/storage.py`.  A record is a line of JSON with sorted keys that leaves
the characters outside ASCII as they are, and the file is read with `splitlines`, which
knows more line boundaries than the newline the writer ends a record with.
-/

namespace CodeCub
namespace Memory

open Python

variable {F : Type} [FiniteFloat F]

/-- A `dict`, by its items. -/
abbrev Fields (F : Type) := List (Str × Json Str F)

/-- The bytes of a file, if it is there. -/
abbrev File := Option Bytes

/-- `path.read_text(encoding="utf-8")`. -/
def readText (bytes : Bytes) : Option Str :=
  match scanUtf8 bytes with
  | some (text, false) => some (universalNewlines text)
  | _ => none

/-- `json.dumps(record, ensure_ascii=False, sort_keys=True) + "\n"`. -/
def recordLine (record : Fields F) : Str := dumps (Json.obj record).sortKeys ++ ['\n']

def appendJsonl (file : File) (record : Fields F) : File :=
  some (file.getD [] ++ encodeUtf8 (recordLine record))

def rewriteJsonl (records : List (Fields F)) : File :=
  some (encodeUtf8 (records.flatMap recordLine))

/-- The loop over the lines: the records, and the number of corrupt lines. -/
def readRecords : List Str → List (Fields F) × Nat
  | [] => ([], 0)
  | line :: lines =>
      let (records, corrupt) := readRecords lines
      if stripList isSpace line = [] then (records, corrupt)
      else
        match loads (stripList isSpace line) with
        | some (.obj record) => (record :: records, corrupt)
        | _ => (records, corrupt + 1)

def readJsonl : File → List (Fields F) × Nat
  | none => ([], 0)
  | some bytes =>
      match readText bytes with
      | none => ([], 1)
      | some text => readRecords (splitlines text)

/-- The records are read back, and nothing is corrupt.  A `dict` is the same in any order
of its keys. -/
def RoundTrips (file : File) (records : List (Fields F)) : Prop :=
  ∃ read, readJsonl file = (read, 0) ∧
    List.Forall₂ (fun record got => (Json.obj record).Same (.obj got)) records read

/-! ## The text of a store -/

theorem mem_recordLine {record : Fields F} : '\r' ∉ recordLine record := by
  intro hmem
  rcases List.mem_append.mp hmem with hmem | hmem
  · exact absurd (low_dumps _ _ hmem) (by decide)
  · exact absurd (List.mem_singleton.mp hmem) (by decide)

theorem readText_records (records : List (Fields F)) :
    readText (encodeUtf8 (records.flatMap recordLine)) = some (records.flatMap recordLine) := by
  have hreturn : '\r' ∉ records.flatMap recordLine := by
    rw [List.mem_flatMap]
    rintro ⟨record, _, hmem⟩
    exact mem_recordLine hmem
  rw [readText, scanUtf8_encodeUtf8]
  exact congrArg some (universalNewlines_of_not_mem hreturn)

/-- Appending to a file that is not there gives the file of a rewrite. -/
theorem foldl_appendJsonl (records : List (Fields F)) (bytes : Bytes) :
    records.foldl appendJsonl (some bytes) =
      some (bytes ++ encodeUtf8 (records.flatMap recordLine)) := by
  induction records generalizing bytes with
  | nil => exact congrArg some (List.append_nil bytes).symm
  | cons record records ih =>
      rw [List.foldl_cons, appendJsonl, Option.getD_some, ih, List.append_assoc,
        ← encodeUtf8_append]
      rfl

theorem readJsonl_appended (records : List (Fields F)) :
    (readJsonl (records.foldl appendJsonl none) : List (Fields F) × Nat) =
      readJsonl (rewriteJsonl records) := by
  cases records with
  | nil => rfl
  | cons record records =>
      rw [List.foldl_cons]
      have hfirst : appendJsonl none record = some (encodeUtf8 (recordLine record)) := rfl
      rw [hfirst, foldl_appendJsonl, ← encodeUtf8_append]
      rfl

/-! ## Reading it -/

theorem readRecords_cons (line : Str) (lines : List Str) :
    (readRecords (line :: lines) : List (Fields F) × Nat) =
      if stripList isSpace line = [] then readRecords lines
      else
        match (loads (stripList isSpace line) : Option (Json Str F)) with
        | some (.obj record) =>
            (record :: (readRecords lines).1, (readRecords lines : List (Fields F) × Nat).2)
        | _ => ((readRecords lines).1, (readRecords lines : List (Fields F) × Nat).2 + 1) := rfl

theorem strip_sorted (record : Fields F) :
    stripList isSpace (dumps (Json.obj record).sortKeys) = dumps (Json.obj record).sortKeys := by
  have hstrip := strip_dumpsWith_obj .plain (sortedFields record)
  rw [sortKeys_obj]
  rw [dumpsWith_plain] at hstrip
  exact hstrip

theorem sorted_ne_nil (record : Fields F) : dumps (Json.obj record).sortKeys ≠ [] := by
  obtain ⟨tail, hhead⟩ := dumpsWith_obj_head .plain (sortedFields record)
  rw [dumpsWith_plain] at hhead
  rw [sortKeys_obj, hhead]
  exact List.cons_ne_nil _ _

omit [FiniteFloat F] in
theorem separated_sortKeys (v : Json Str F) : v.sortKeys.Separated ↔ v.Separated := by
  constructor
  · exact fun h s hs => h s ((mem_texts_sortKeys v s).mpr hs)
  · exact fun h s hs => h s ((mem_texts_sortKeys v s).mp hs)

/-- A line of a record is read as the record. -/
theorem readRecords_record {record : Fields F} (hrep : (Json.obj record).Representable)
    (lines : List Str) :
    (readRecords (dumps (Json.obj record).sortKeys :: lines) : List (Fields F) × Nat) =
      (sortedFields record :: (readRecords lines).1,
        (readRecords lines : List (Fields F) × Nat).2) := by
  have hread := loads_dumps (representable_sortKeys _ hrep)
  rw [readRecords_cons, strip_sorted, if_neg (sorted_ne_nil record), hread, sortKeys_obj]

/-- Records without separators are read back, whatever comes behind them. -/
theorem readRecords_lines {records : List (Fields F)}
    (hrep : ∀ record ∈ records, (Json.obj record).Representable)
    (hsep : ∀ record ∈ records, (Json.obj record).Separated) (rest : Str) :
    (readRecords (splitlines (records.flatMap recordLine ++ rest)) : List (Fields F) × Nat) =
      (records.map sortedFields ++ (readRecords (splitlines rest)).1,
        (readRecords (splitlines rest) : List (Fields F) × Nat).2) := by
  induction records with
  | nil => rfl
  | cons record records ih =>
      rw [List.forall_mem_cons] at hrep hsep
      have hline : ∀ c ∈ dumps (Json.obj record).sortKeys, isLineBreak c = false :=
        (one_line_iff _).mpr ((separated_sortKeys _).mpr hsep.1)
      rw [List.flatMap_cons, recordLine, List.append_assoc, List.append_assoc,
        List.singleton_append, splitlines_line hline (by decide) (by decide),
        readRecords_record hrep.1, ih hrep.2 hsep.2]
      rfl

/-- A record with a separator leaves a corrupt line. -/
theorem readRecords_torn {record : Fields F} (hrep : (Json.obj record).Representable)
    (hsep : ¬ (Json.obj record).Separated) (rest : Str) :
    (readRecords (splitlines (recordLine record ++ rest)) : List (Fields F) × Nat).2 ≠ 0 := by
  rw [← separated_sortKeys, sortKeys_obj] at hsep
  have hsorted := representable_sortKeys _ hrep
  rw [sortKeys_obj] at hsorted
  obtain ⟨line, more, hlines, hne, hnone⟩ := splitlines_torn hsorted hsep ('\n' :: rest)
  rw [recordLine, sortKeys_obj, List.append_assoc, List.singleton_append, hlines,
    readRecords_cons, if_neg hne, hnone]
  exact Nat.succ_ne_zero _

theorem readJsonl_rewriteJsonl {records : List (Fields F)}
    (hrep : ∀ record ∈ records, (Json.obj record).Representable)
    (hsep : ∀ record ∈ records, (Json.obj record).Separated) :
    readJsonl (rewriteJsonl records) = (records.map sortedFields, 0) := by
  have hread := readRecords_lines hrep hsep []
  rw [List.append_nil] at hread
  rw [rewriteJsonl, readJsonl, readText_records]
  refine hread.trans (congrArg (fun read => (read, 0)) ?_)
  exact List.append_nil _

theorem corrupt_rewriteJsonl {records : List (Fields F)}
    (hrep : ∀ record ∈ records, (Json.obj record).Representable)
    (hcorrupt : (readJsonl (rewriteJsonl records) : List (Fields F) × Nat).2 = 0) :
    ∀ record ∈ records, (Json.obj record).Separated := by
  intro torn htorn
  by_contra hsep
  obtain ⟨good, bad, rest, rfl, hgood, hbad⟩ :=
    exists_first (P := fun record => (Json.obj record).Separated) htorn hsep
  have hread := readRecords_lines (fun record hrecord =>
    hrep record (List.mem_append_left _ hrecord)) hgood
    (recordLine bad ++ rest.flatMap recordLine)
  rw [rewriteJsonl, readJsonl, readText_records, List.flatMap_append, List.flatMap_cons] at hcorrupt
  refine readRecords_torn (hrep bad ?_) hbad (rest.flatMap recordLine) ?_
  · exact List.mem_append_right _ List.mem_cons_self
  · rw [← hcorrupt]
    exact (congrArg Prod.snd hread).symm

/-! ## Round trips -/

/-- A `dict` that JSON can represent. -/
structure Record (F : Type) where
  fields : Fields F
  representable : (Json.obj fields).Representable

theorem roundTrips_iff (records : List (Record F)) :
    RoundTrips (rewriteJsonl (records.map Record.fields)) (records.map Record.fields) ↔
      ∀ record ∈ records, (Json.obj record.fields).Separated := by
  have hrep : ∀ record ∈ records.map Record.fields, (Json.obj record).Representable :=
    List.forall_mem_map.mpr fun record _ => record.representable
  constructor
  · rintro ⟨read, hread, _⟩
    have hsep := corrupt_rewriteJsonl hrep (congrArg Prod.snd hread)
    exact fun record hrecord => hsep _ (List.mem_map_of_mem hrecord)
  · intro hsep
    refine ⟨_, readJsonl_rewriteJsonl hrep (List.forall_mem_map.mpr hsep), ?_⟩
    rw [List.forall₂_map_right_iff, List.forall₂_same]
    intro record _
    have hsorted := sortKeys_sortKeys (Json.obj record)
    rw [sortKeys_obj record] at hsorted
    rw [Json.Same, hsorted, sortKeys_obj]

/-- A list of records survives being written, at once or one by one, exactly when none of
its strings holds a separator. -/
theorem jsonl_roundTrips_iff (records : List (Record F)) :
    (RoundTrips (rewriteJsonl (records.map Record.fields)) (records.map Record.fields) ∧
      RoundTrips ((records.map Record.fields).foldl appendJsonl none)
        (records.map Record.fields)) ↔
      ∀ record ∈ records, (Json.obj record.fields).Separated := by
  have hsame : RoundTrips ((records.map Record.fields).foldl appendJsonl none)
      (records.map Record.fields) ↔
      RoundTrips (rewriteJsonl (records.map Record.fields)) (records.map Record.fields) := by
    rw [RoundTrips, RoundTrips, readJsonl_appended]
  rw [hsame, and_self]
  exact roundTrips_iff records

/-- A statement with a line separator in it. -/
def separatedStatement : Record Empty where
  fields := [("statement".toList, .str ['a', Char.ofNat 0x2028, 'b'])]
  representable := ⟨by decide, trivial, trivial⟩

theorem separator_tears_record :
    ¬ ∀ records : List (Record Empty),
      RoundTrips (rewriteJsonl (records.map Record.fields)) (records.map Record.fields) ∧
        RoundTrips ((records.map Record.fields).foldl appendJsonl none)
          (records.map Record.fields) := by
  intro h
  obtain ⟨⟨read, hread, hsame⟩, _⟩ := h [separatedStatement]
  have hlost : (readJsonl (rewriteJsonl [separatedStatement.fields]) :
      List (Fields Empty) × Nat).2 = 2 := by decide +kernel
  rw [show (readJsonl (rewriteJsonl [separatedStatement.fields]) :
    List (Fields Empty) × Nat) = (read, 0) from hread] at hlost
  cases hlost

end Memory
end CodeCub

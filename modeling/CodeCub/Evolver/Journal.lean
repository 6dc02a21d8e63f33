import CodeCub.Evolver.Gates
import CodeCub.Machine.Run
import CodeCub.Python.JsonAscii
import CodeCub.Python.Utf8

/-!
# The journal of the rounds

`pico/evolver/orchestrator/state/journal.py`: every completed round is appended as one
line of JSON, and a resumed run loads the lines.  A crash in `append` leaves the first
bytes of the line.  `load` drops what it cannot read at the end, but leaves it in the
file, and the next `append` goes on behind it.
-/

namespace CodeCub
namespace Evolver

open Python

variable {F : Type} [FiniteFloat F]

def EvaluationVerdict.value : EvaluationVerdict → Str
  | .accepted => "accepted".toList
  | .rejected => "rejected".toList
  | .failed => "failed".toList
  | .inconclusive => "inconclusive".toList

/-- What `append` reads of an outcome. -/
structure CandidateEntry where
  nodeId : Str
  status : NodeStatus
  verdict : Option EvaluationVerdict

/-- What `append` reads of a round. -/
structure RoundEntry (F : Type) where
  roundIndex : Int
  parentId : Str
  nextParentId : Str
  promoted : Bool
  beatVanilla : Bool := false
  errored : Bool := false
  verdict : Option Str := none
  nextParentSha : Option Str := none
  nextParentTrain : Option F := none
  outcomes : List CandidateEntry := []

/-- `None` is `null`. -/
def nullable {α : Type} (f : α → Json Str F) : Option α → Json Str F
  | none => .null
  | some a => f a

def CandidateEntry.record (o : CandidateEntry) : Json Str F :=
  .obj [("node_id".toList, .str o.nodeId), ("status".toList, .str o.status.value),
    ("verdict".toList, .str ((o.verdict.map EvaluationVerdict.value).getD "inconclusive".toList))]

/-- `record`. -/
def RoundEntry.record (rr : RoundEntry F) : List (Str × Json Str F) :=
  [("round_index".toList, .int rr.roundIndex), ("parent_id".toList, .str rr.parentId),
    ("next_parent_id".toList, .str rr.nextParentId), ("promoted".toList, .bool rr.promoted),
    ("beat_vanilla".toList, .bool rr.beatVanilla), ("errored".toList, .bool rr.errored),
    ("verdict".toList, nullable .str rr.verdict),
    ("next_parent_sha".toList, nullable .str rr.nextParentSha),
    ("next_parent_train".toList, nullable .float rr.nextParentTrain),
    ("candidates".toList, .arr (rr.outcomes.map CandidateEntry.record))]

def RoundEntry.text (rr : RoundEntry F) : Str := asciiDumps (.obj rr.record)

/-- What `append` writes. -/
def RoundEntry.line (rr : RoundEntry F) : Str := rr.text ++ ['\n']

/-! ## The file -/

/-- `path.read_text()`, `none` where it raises. -/
def readText (data : Bytes) : Option Str :=
  match scanUtf8 data with
  | some (text, false) => some text
  | _ => none

/-- `[ln.strip() for ln in text.splitlines() if ln.strip()]`. -/
def journalLines (text : Str) : List Str :=
  ((splitlines text).map (stripList isSpace)).filter (· ≠ [])

/-- The loop of `load`: a malformed last line ends it, another one raises. -/
def readRecords : List Str → Option (List (Json Str F))
  | [] => some []
  | line :: lines =>
      match loads line with
      | some record => (readRecords lines).map (record :: ·)
      | none => if lines = [] then some [] else none

/-- `load`, `none` where it raises. -/
def load : Option Bytes → Option (List (Json Str F))
  | none => some []
  | some data => (readText data).bind fun text => readRecords (journalLines text)

/-- The file opened with `"a"` and written to. -/
def appendBytes (data : Bytes) (file : Option Bytes) : Option Bytes := some (file.getD [] ++ data)

inductive JournalStep (F : Type) where
  | append (rr : RoundEntry F)
  /-- An `append` of which only the first `written` bytes reach the file. -/
  | crash (rr : RoundEntry F) (written : Nat)
  | load

def roundJournal : Machine (Option Bytes) (JournalStep F) (Option (Option (List (Json Str F)))) where
  step file
    | .append rr => (appendBytes (encodeUtf8 rr.line) file, none)
    | .crash rr written => (appendBytes ((encodeUtf8 rr.line).take written) file, none)
    | .load => (file, some (load file))

/-! ## What has to survive -/

/-- The round whose append the step completes. -/
def JournalStep.completed : JournalStep F → Option (RoundEntry F)
  | .append rr => some rr
  | .crash rr written => if (encodeUtf8 rr.line).length ≤ written then some rr else none
  | .load => none

/-- Of the record the newline alone is missing. -/
def JournalStep.LacksNewline (rr : RoundEntry F) : JournalStep F → Prop
  | .crash rr' written => rr' = rr ∧ written + 1 = (encodeUtf8 rr.line).length
  | _ => False

/-- `load` returns the records whose append completed, and possibly one that lacks its
newline. -/
def Survives (steps : List (JournalStep F)) (loaded : Option (List (Json Str F))) : Prop :=
  ∃ extra : Option (RoundEntry F),
    loaded = some ((steps.filterMap JournalStep.completed ++ extra.toList).map fun rr =>
      .obj rr.record) ∧
    ∀ rr ∈ extra, ∃ step ∈ steps, step.LacksNewline rr

/-- A step that writes anything finds the file at the beginning of a line. -/
def AtLineStart (file : Option Bytes) : JournalStep F → Prop
  | .append _ => (file.getD []).getLast?.getD 10 = 10
  | .crash _ written => written = 0 ∨ (file.getD []).getLast?.getD 10 = 10
  | .load => True

/-! ## Records and their lines -/

omit [FiniteFloat F] in
theorem representable_nullable {α : Type} {f : α → Json Str F} (h : ∀ a, (f a).Representable)
    (value : Option α) : (nullable f value).Representable := by
  cases value with
  | none => trivial
  | some a => exact h a

omit [FiniteFloat F] in
theorem CandidateEntry.representable (o : CandidateEntry) :
    (o.record : Json Str F).Representable := by
  refine ⟨?_, trivial, trivial, trivial, trivial⟩
  show ["node_id".toList, "status".toList, "verdict".toList].Nodup
  decide

omit [FiniteFloat F] in
theorem RoundEntry.representable (rr : RoundEntry F) : (Json.obj rr.record).Representable := by
  have hstr : ∀ s : Str, (Json.str s : Json Str F).Representable := fun _ => trivial
  have hfloat : ∀ x : F, (Json.float x : Json Str F).Representable := fun _ => trivial
  refine ⟨?_, trivial, trivial, trivial, trivial, trivial, trivial,
    representable_nullable hstr _, representable_nullable hstr _, representable_nullable hfloat _,
    ?_, trivial⟩
  · show ["round_index".toList, "parent_id".toList, "next_parent_id".toList, "promoted".toList,
      "beat_vanilla".toList, "errored".toList, "verdict".toList, "next_parent_sha".toList,
      "next_parent_train".toList, "candidates".toList].Nodup
    decide
  · rw [representable_arr]
    intro item hitem
    obtain ⟨o, _, rfl⟩ := List.mem_map.mp hitem
    exact o.representable

theorem loads_text (rr : RoundEntry F) : loads rr.text = some (Json.obj rr.record) :=
  loads_asciiDumps rr.representable

theorem isLineBreak_of_printed {c : Char} (h : Printed c) : isLineBreak c = false := by
  have hlow := h.1
  have hhigh := h.2
  simp only [isLineBreak, Bool.or_eq_false_iff, Bool.and_eq_false_iff, decide_eq_false_iff_not,
    beq_eq_false_iff_ne]
  omega

theorem printed_text (rr : RoundEntry F) : ∀ c ∈ rr.text, Printed c := printed_asciiDumps _

theorem isAscii_of_printed {text : Str} (h : ∀ c ∈ text, Printed c) : IsAscii text :=
  fun c hc => (h c hc).2

theorem isAscii_line (rr : RoundEntry F) : IsAscii rr.line := by
  intro c hc
  rcases List.mem_append.mp hc with hc | hc
  · exact isAscii_of_printed (printed_text rr) c hc
  · rw [List.mem_singleton.mp hc]
    decide

theorem length_encodeUtf8 {text : Str} (h : IsAscii text) :
    (encodeUtf8 text).length = text.length := by
  rw [encodeUtf8_ascii h, List.length_map]

theorem readText_encodeUtf8 (text : Str) : readText (encodeUtf8 text) = some text := by
  rw [readText, scanUtf8_encodeUtf8]

/-! ## Torn files -/

/-- What a crash may have left behind the last newline. -/
inductive LeftOver (steps : List (JournalStep F)) : Str → Prop where
  | nothing : LeftOver steps []
  | torn (rr : RoundEntry F) (tail more : Str) (htail : tail ≠ []) (hmore : more ≠ [])
      (htext : tail ++ more = rr.text) : LeftOver steps tail
  | whole (rr : RoundEntry F) (step : JournalStep F) (hstep : step ∈ steps)
      (hlacks : step.LacksNewline rr) : LeftOver steps rr.text

theorem LeftOver.mono {steps more : List (JournalStep F)} {tail : Str} (h : LeftOver steps tail) :
    LeftOver (steps ++ more) tail := by
  cases h with
  | nothing => exact .nothing
  | torn rr _ rest htail hrest htext => exact .torn rr _ rest htail hrest htext
  | whole rr step hstep hlacks =>
      exact .whole rr step (List.mem_append_left _ hstep) hlacks

theorem LeftOver.printed {steps : List (JournalStep F)} {tail : Str} (h : LeftOver steps tail) :
    ∀ c ∈ tail, Printed c := by
  cases h with
  | nothing => exact List.forall_mem_nil _
  | torn rr _ more _ _ htext =>
      intro c hc
      exact printed_text rr c (by rw [← htext]; exact List.mem_append_left _ hc)
  | whole rr _ _ _ => exact printed_text rr

def lines (rounds : List (RoundEntry F)) : Str := rounds.flatMap RoundEntry.line

/-- The file holds the lines of the completed rounds and what a crash left behind them. -/
def Holds (steps : List (JournalStep F)) (file : Option Bytes) : Prop :=
  ∃ tail, LeftOver steps tail ∧
    file.getD [] = encodeUtf8 (lines (steps.filterMap JournalStep.completed) ++ tail)

theorem Holds.start : Holds ([] : List (JournalStep F)) none := ⟨[], .nothing, rfl⟩

/-- At the beginning of a line nothing is left over. -/
theorem LeftOver.eq_nil {steps : List (JournalStep F)} {tail before : Str}
    (h : LeftOver steps tail) (hlast : (encodeUtf8 (before ++ tail)).getLast?.getD 10 = 10) :
    tail = [] := by
  by_contra hne
  obtain ⟨init, c, rfl⟩ := (List.eq_nil_or_concat' tail).resolve_left hne
  have hc := h.printed c (List.mem_append_right _ (List.mem_singleton_self c))
  have hbyte : encodeUtf8 [c] = [UInt8.ofNat c.toNat] :=
    encodeUtf8_ascii (isAscii_of_printed (List.forall_mem_singleton.mpr hc))
  rw [← List.append_assoc, encodeUtf8_append, hbyte, List.getLast?_concat, Option.getD_some] at hlast
  have hnat := congrArg UInt8.toNat hlast
  have hlow := hc.1
  have hhigh := hc.2
  rw [toNat_ofNat (by omega)] at hnat
  have hten : (10 : UInt8).toNat = 10 := rfl
  omega

theorem lines_concat (rounds : List (RoundEntry F)) (rr : RoundEntry F) :
    lines (rounds ++ [rr]) = lines rounds ++ rr.line := by
  simp [lines]

theorem completed_concat (steps : List (JournalStep F)) (step : JournalStep F) :
    (steps ++ [step]).filterMap JournalStep.completed =
      steps.filterMap JournalStep.completed ++ step.completed.toList := by
  rw [List.filterMap_append]
  cases h : step.completed with
  | none => rw [List.filterMap_cons_none h]; rfl
  | some rr => rw [List.filterMap_cons_some h]; rfl

/-- A line is written where a line begins. -/
theorem Holds.write {steps : List (JournalStep F)} {file : Option Bytes} {step : JournalStep F}
    {rr : RoundEntry F} (h : Holds steps file) (hlast : (file.getD []).getLast?.getD 10 = 10)
    (hstep : step.completed = some rr) :
    Holds (steps ++ [step]) (appendBytes (encodeUtf8 rr.line) file) := by
  obtain ⟨tail, htail, hfile⟩ := h
  rw [hfile] at hlast
  obtain rfl := htail.eq_nil hlast
  refine ⟨[], .nothing, ?_⟩
  rw [completed_concat, hstep, Option.toList_some, lines_concat, List.append_nil]
  rw [List.append_nil] at hfile
  rw [appendBytes, Option.getD_some, hfile, encodeUtf8_append]

/-- A crash leaves a beginning of the line. -/
theorem Holds.tear {steps : List (JournalStep F)} {file : Option Bytes} {rr : RoundEntry F}
    {written : Nat} (h : Holds steps file) (hlast : (file.getD []).getLast?.getD 10 = 10)
    (hpos : written ≠ 0) (hshort : written < rr.line.length) :
    Holds (steps ++ [.crash rr written])
      (appendBytes ((encodeUtf8 rr.line).take written) file) := by
  obtain ⟨tail, htail, hfile⟩ := h
  rw [hfile] at hlast
  obtain rfl := htail.eq_nil hlast
  have hlength := length_encodeUtf8 (isAscii_line rr)
  have hnone : (JournalStep.crash rr written).completed = none :=
    if_neg (by omega)
  have hline : rr.line.length = rr.text.length + 1 := by
    rw [RoundEntry.line, List.length_append, List.length_singleton]
  have htake : rr.line.take written = rr.text.take written :=
    List.take_append_of_le_length (by omega)
  refine ⟨rr.text.take written, ?_, ?_⟩
  · by_cases hwhole : written = rr.text.length
    · rw [hwhole, List.take_length]
      refine .whole rr (.crash rr rr.text.length) (List.mem_append_right _ ?_) ⟨rfl, by omega⟩
      exact List.mem_singleton_self _
    · refine .torn rr _ (rr.text.drop written) ?_ ?_ (List.take_append_drop _ _)
      · rw [← List.length_pos_iff, List.length_take]
        omega
      · rw [← List.length_pos_iff, List.length_drop]
        omega
  · rw [completed_concat, hnone, Option.toList_none, List.append_nil, appendBytes,
      Option.getD_some, hfile, encodeUtf8_take (isAscii_line rr), htake, List.append_nil,
      encodeUtf8_append]

theorem Holds.idle {steps : List (JournalStep F)} {file file' : Option Bytes}
    {step : JournalStep F} (h : Holds steps file) (hstep : step.completed = none)
    (hfile : file'.getD [] = file.getD []) : Holds (steps ++ [step]) file' := by
  obtain ⟨tail, htail, hheld⟩ := h
  refine ⟨tail, htail.mono, ?_⟩
  rw [completed_concat, hstep, Option.toList_none, List.append_nil, hfile, hheld]

theorem Holds.next {steps : List (JournalStep F)} {file : Option Bytes} {step : JournalStep F}
    (h : Holds steps file) (hstart : AtLineStart file step) :
    Holds (steps ++ [step]) (roundJournal.next file step) := by
  cases step with
  | append rr => exact h.write hstart rfl
  | load => exact h.idle rfl rfl
  | crash rr written =>
      have hlength := length_encodeUtf8 (isAscii_line rr)
      by_cases hpos : written = 0
      · have hnone : (JournalStep.crash rr written).completed = none := by
          have hline : 0 < rr.line.length := by simp [RoundEntry.line]
          exact if_neg (by omega)
        refine h.idle hnone ?_
        show file.getD [] ++ (encodeUtf8 rr.line).take written = _
        rw [hpos, List.take_zero, List.append_nil]
      · have hlast := hstart.resolve_left hpos
        by_cases hshort : written < rr.line.length
        · exact h.tear hlast hpos hshort
        · have hsome : (JournalStep.crash rr written).completed = some rr := if_pos (by omega)
          have hwritten := h.write hlast hsome
          show Holds _ (appendBytes ((encodeUtf8 rr.line).take written) file)
          rw [List.take_of_length_le (by omega)]
          exact hwritten

/-! ## Loading -/

theorem text_ne_nil (rr : RoundEntry F) : rr.text ≠ [] := by
  obtain ⟨rest, hrest⟩ := dumpsWith_obj_head .ascii rr.record
  intro hnil
  have hboth := hrest.symm.trans hnil
  cases hboth

theorem strip_text (rr : RoundEntry F) : stripList isSpace rr.text = rr.text :=
  strip_dumpsWith_obj .ascii rr.record

theorem journalLines_append (rounds : List (RoundEntry F)) (text : Str) :
    journalLines (lines rounds ++ text) = rounds.map RoundEntry.text ++ journalLines text := by
  have hlines : lines rounds = (rounds.map RoundEntry.text).flatMap fun line => line ++ ['\n'] := by
    rw [lines, List.flatMap_map]
    rfl
  have hbreaks : ∀ line ∈ rounds.map RoundEntry.text, ∀ c ∈ line, isLineBreak c = false := by
    intro line hline c hc
    obtain ⟨rr, _, rfl⟩ := List.mem_map.mp hline
    exact isLineBreak_of_printed (printed_text rr c hc)
  rw [journalLines, hlines, splitlines_lines hbreaks, List.map_append, List.filter_append, List.map_map]
  congr 1
  have hmap : rounds.map (stripList isSpace ∘ RoundEntry.text) = rounds.map RoundEntry.text :=
    List.map_congr_left fun rr _ => strip_text rr
  rw [hmap, List.filter_eq_self]
  intro line hline
  obtain ⟨rr, _, rfl⟩ := List.mem_map.mp hline
  exact decide_eq_true (text_ne_nil rr)

theorem journalLines_line {line : Str} (hbreaks : ∀ c ∈ line, isLineBreak c = false)
    (hne : stripList isSpace line ≠ []) : journalLines line = [stripList isSpace line] := by
  have hline : line ≠ [] := by
    rintro rfl
    exact hne rfl
  rw [journalLines, splitlines_last hbreaks hline, List.map_singleton]
  exact List.filter_cons_of_pos (decide_eq_true hne)

theorem readRecords_append (rounds : List (RoundEntry F)) (rest : List Str) :
    readRecords (rounds.map RoundEntry.text ++ rest) =
      (readRecords rest).map fun records => rounds.map (fun rr => Json.obj rr.record) ++ records := by
  induction rounds with
  | nil => simp
  | cons rr rounds ih =>
      rw [List.map_cons, List.cons_append, readRecords, loads_text]
      simp only [ih, Option.map_map]
      rfl

/-- What a crash left is read as a whole record or not at all. -/
theorem readRecords_tail {steps : List (JournalStep F)} {tail : Str} (h : LeftOver steps tail) :
    ∃ extra : Option (RoundEntry F),
      readRecords (journalLines tail) = some (extra.toList.map fun rr => Json.obj rr.record) ∧
      ∀ rr ∈ extra, ∃ step ∈ steps, step.LacksNewline rr := by
  have hprinted := h.printed
  have hbreaks : ∀ c ∈ tail, isLineBreak c = false := fun c hc =>
    isLineBreak_of_printed (hprinted c hc)
  cases h with
  | nothing => exact ⟨none, rfl, by rintro rr ⟨⟩⟩
  | torn rr _ more htail hmore htext =>
      refine ⟨none, ?_, by rintro rr ⟨⟩⟩
      obtain ⟨rest, hrest⟩ := dumpsWith_obj_head .ascii rr.record
      obtain ⟨c, init, rfl⟩ := List.exists_cons_of_ne_nil htail
      have hc : c = '{' := by
        have hcons : c :: (init ++ more) = '{' :: rest := htext.trans hrest
        injection hcons
      subst hc
      obtain ⟨cut, hcut, hne⟩ := stripList_prefix '{' init (by decide)
      have hnone : (loads (stripList isSpace ('{' :: init)) : Option (Json Str F)) = none := by
        have hprefix : stripList isSpace ('{' :: init) ++ (cut ++ more) = rr.text := by
          rw [← List.append_assoc, hcut]
          exact htext
        refine loads_asciiPrefix rr.representable hprefix ?_
        intro hnil
        exact hmore (List.append_eq_nil_iff.mp hnil).2
      rw [journalLines_line hbreaks hne, readRecords, hnone]
      rfl
  | whole rr step hstep hlacks =>
      refine ⟨some rr, ?_, ?_⟩
      · have hline := journalLines_line hbreaks (by rw [strip_text]; exact text_ne_nil rr)
        rw [hline, strip_text, readRecords, loads_text]
        rfl
      · rintro _ ⟨⟩
        exact ⟨step, hstep, hlacks⟩

theorem load_getD (file : Option Bytes) :
    (load file : Option (List (Json Str F))) = load (some (file.getD [])) := by
  cases file with
  | none => rfl
  | some data => rfl

theorem Holds.survives {steps : List (JournalStep F)} {file : Option Bytes}
    (h : Holds steps file) : Survives steps (load file) := by
  obtain ⟨tail, htail, hfile⟩ := h
  obtain ⟨extra, hextra, hlacks⟩ := readRecords_tail htail
  refine ⟨extra, ?_, hlacks⟩
  rw [load_getD, hfile, load, readText_encodeUtf8, Option.bind_some, journalLines_append,
    readRecords_append, hextra, Option.map_some, List.map_append]

theorem holds_run {steps : List (JournalStep F)}
    (h : roundJournal.Along AtLineStart none steps) : Holds steps (roundJournal.run none steps) := by
  induction steps using List.reverseRecOn with
  | nil => exact Holds.start
  | append_singleton steps step ih =>
      obtain ⟨hbefore, hstep, _⟩ := Machine.along_append.mp h
      rw [Machine.run_append]
      exact (ih hbefore).next hstep

/-- While no line is begun behind a torn one, `load` survives every crash. -/
theorem load_survives_crashes (steps : List (JournalStep F))
    (h : roundJournal.Along AtLineStart none steps) :
    ∀ before, before <+: steps → Survives before (load (roundJournal.run none before)) := by
  rintro before ⟨after, rfl⟩
  exact (holds_run (Machine.along_append.mp h).1).survives

def firstRound : RoundEntry Empty where
  roundIndex := 1
  parentId := "v0".toList
  nextParentId := "v1".toList
  promoted := true

def lastCrash : List (JournalStep Empty) :=
  [.append firstRound, .load, .crash firstRound 7, .load]

/-- A crash at the end of the run is survived. -/
theorem lastCrash_is_survived : Survives lastCrash (load (roundJournal.run none lastCrash)) :=
  load_survives_crashes lastCrash
    ⟨rfl, trivial, Or.inr (by decide +kernel), trivial, trivial⟩ lastCrash List.prefix_rfl

/-- One byte of a record is left, and the round that was run again is lost with it. -/
theorem tornLine_swallows_record :
    ¬ ∀ steps : List (JournalStep Empty),
      Survives steps (load (roundJournal.run none steps)) := by
  intro h
  obtain ⟨extra, hloaded, _⟩ := h [.crash firstRound 1, .append firstRound]
  have hempty : (load (roundJournal.run none [.crash firstRound 1, .append firstRound]) :
      Option (List (Json Str Empty))).map List.length = some 0 := by decide +kernel
  have hcompleted : firstRound ∈ [JournalStep.crash firstRound 1, .append firstRound].filterMap
      JournalStep.completed :=
    List.mem_filterMap.mpr ⟨.append firstRound, List.mem_cons_of_mem _ List.mem_cons_self, rfl⟩
  have hpos := List.length_pos_of_mem hcompleted
  rw [hloaded, Option.map_some, List.length_map, List.length_append, Option.some.injEq] at hempty
  omega

end Evolver
end CodeCub

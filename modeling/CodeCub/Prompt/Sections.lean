import CodeCub.Prompt.TokenBudget
import CodeCub.Python.Lines
import Mathlib.Algebra.GroupWithZero.Nat

/-!
# The sections of a prompt

How `ContextManager` renders the relevant memory and the history within a budget.  The notes
share their budget, which shrinks by one until they fit; the history is filled from its end,
and what is older than the last entries is summarised.
-/

namespace CodeCub
namespace Prompt

open Python

structure SectionRender where
  raw : Str
  budget : Int
  rendered : Str
  deriving DecidableEq

/-- `"\n".join(lines)`. -/
def joinLines (lines : List Str) : Str := ['\n'].intercalate lines

variable (counter : Option Counter)

/-! ## Relevant memory -/

def relevantHeader : Str := "Relevant memory:".toList

def relevantText (notes : List Str) : Str :=
  joinLines (relevantHeader :: notes.map fun text => "- ".toList ++ text)

/-- `_per_note_budget`. -/
def perNoteBudget (budget : Int) (noteCount : Nat) : Nat :=
  if noteCount = 0 then 0
  else
    let overhead : Int := relevantHeader.length + 3 * noteCount
    max 1 ((max 0 (budget - overhead)).toNat / noteCount)

/-- The notes, each clipped to the same budget, which goes down to 1. -/
def shareNotes (budget : Int) (texts : List Str) : Nat → List Str
  | 0 => texts.map fun text => clip counter text 0
  | perNote + 1 =>
      let notes := texts.map fun text => clip counter text (perNote + 1 : Nat)
      if measure counter (relevantText notes) ≤ budget ∨ perNote + 1 ≤ 1 then notes
      else shareNotes budget texts perNote

/-- `_render_relevant_memory`. -/
def renderRelevantMemory (selectedNotes : List Str) (budget : Int) : SectionRender :=
  let texts := selectedNotes.filter fun text => stripList isSpace text ≠ []
  if texts = [] then
    let raw := joinLines [relevantHeader, "- none".toList]
    ⟨raw, budget, raw⟩
  else
    let raw := relevantText texts
    let rendered := relevantText (shareNotes counter budget texts (perNoteBudget budget texts.length))
    if budget < measure counter rendered ∧ 0 < budget then ⟨raw, budget, clip counter raw budget⟩
    else ⟨raw, budget, rendered⟩

/-! ## History -/

/-- A tool result of the history: `argsText` is `json.dumps(args, sort_keys=True)`, `path` and
`command` are the stripped texts of these arguments. -/
structure ToolRecord where
  name : Str
  argsText : Str
  path : Str := []
  command : Str := []
  content : Str
  deriving DecidableEq

inductive HistoryItem
  | tool (call : ToolRecord)
  | message (role content : Str)
  deriving DecidableEq

def toolHead (call : ToolRecord) : Str :=
  "[tool:".toList ++ (call.name ++ ("] ".toList ++ call.argsText))

def messageLine (role content : Str) : Str := '[' :: (role ++ ("] ".toList ++ content))

/-- `_render_history_item`. -/
def renderHistoryItem (item : HistoryItem) (lineLimit : Int) : List Str :=
  match item with
  | .tool call => [toolHead call, tailClip call.content (max 20 lineLimit)]
  | .message role content => [messageLine role (tailClip content lineLimit)]

/-- `_summarize_old_tool_item`. -/
def summarizeOldToolItem (call : ToolRecord) : Str :=
  if call.name = "run_shell".toList then
    let command := if call.command = [] then "shell".toList else call.command
    let lines := ((splitlines call.content).map (stripList isSpace)).filter (· ≠ [])
    let summary := if lines = [] then "(empty)".toList else " | ".toList.intercalate (lines.take 3)
    command ++ (" -> ".toList ++ summary)
  else toolHead call

structure HistoryEntry where
  recent : Bool
  lines : List Str
  deriving DecidableEq

/-- `_compressed_history_entries`; `fileSummary` is `_reusable_file_summary`, and of older reads
of one path the first one is kept. -/
def compressedHistoryEntries (fileSummary : Str → Str) (recentStart : Nat) :
    Nat → List Str → List HistoryItem → List HistoryEntry
  | _, _, [] => []
  | index, seen, item :: rest =>
      if recentStart ≤ index then
        ⟨true, renderHistoryItem item 900⟩ ::
          compressedHistoryEntries fileSummary recentStart (index + 1) seen rest
      else
        match item with
        | .tool call =>
            if call.name = "read_file".toList then
              if call.path ∈ seen then
                compressedHistoryEntries fileSummary recentStart (index + 1) seen rest
              else
                let line := if fileSummary call.path = [] then summarizeOldToolItem call
                  else call.path ++ (" -> ".toList ++ fileSummary call.path)
                ⟨false, [line]⟩ :: compressedHistoryEntries fileSummary recentStart (index + 1)
                  (call.path :: seen) rest
            else
              ⟨false, [summarizeOldToolItem call]⟩ ::
                compressedHistoryEntries fileSummary recentStart (index + 1) seen rest
        | .message _ _ =>
            ⟨false, renderHistoryItem item 60⟩ ::
              compressedHistoryEntries fileSummary recentStart (index + 1) seen rest

def transcriptHeader : Str := "Transcript:".toList

def transcript (entries : List Str) : Str := joinLines (transcriptHeader :: entries)

/-- `_raw_history_text`. -/
def rawHistoryText (history : List HistoryItem) : Str :=
  if history = [] then joinLines [transcriptHeader, "- empty".toList]
  else
    transcript (history.flatMap fun item =>
      match item with
      | .tool call => [toolHead call, call.content]
      | .message role content => [messageLine role content])

/-- One entry in front of those that are rendered, clipped where it does not fit whole, and
left out where it does not fit clipped either. -/
def addEntry (budget : Int) (rendered : List Str) (entry : HistoryEntry) : List Str :=
  let candidate := entry.lines ++ rendered
  if measure counter (transcript candidate) ≤ budget then candidate
  else
    let taken : Int := ((rendered.map fun line => line.length + 1).sum : Nat)
    let available : Int :=
      if entry.recent then max 20 (budget - transcriptHeader.length - taken - 1) else 20
    let smaller := (entry.lines.map fun line => clip counter line available) ++ rendered
    if measure counter (transcript smaller) ≤ budget then smaller else rendered

def recentWindow : Nat := 6

/-- `_render_history_section`. -/
def renderHistorySection (fileSummary : Str → Str) (history : List HistoryItem) (budget : Int) :
    SectionRender :=
  let raw := rawHistoryText history
  if history = [] then ⟨raw, budget, raw⟩
  else
    let entries :=
      compressedHistoryEntries fileSummary (history.length - recentWindow) 0 [] history
    let rendered := transcript (entries.reverse.foldl (addEntry counter budget) [])
    if budget < measure counter rendered ∧ 0 < budget then ⟨raw, budget, clip counter raw budget⟩
    else ⟨raw, budget, rendered⟩

end Prompt
end CodeCub

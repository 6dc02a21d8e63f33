import CodeCub.Agent.TaskPolicy
import CodeCub.Python.TrimmedSet
import Mathlib.Data.Char
import Mathlib.Data.List.Lex

/-!
# The edit-decision watchdog

`EditDecisionWatchdog` of `codecub/edit_decision.py` lets a request for evidence through as
long as it brings something new: a file or a range of lines, a search, a symbol.  What was
executed is remembered within bounds, the ranges of a file by age and the searches and the
symbols by their order as texts.
-/

namespace CodeCub
namespace Agent

open Python

def maxTrackedReadRangesPerPath : Nat := 32
def maxTrackedSearches : Nat := 64
def maxTrackedSymbols : Nat := 64

inductive EvidenceKind
  | newFile
  | newRange
  | newSymbol
  | newSearch
  | reReadAfterChange
  | repeatedEvidence
  | evidence
  | unclassified
  deriving DecidableEq, Repr

structure EvidenceClassification where
  progress : Bool
  kind : EvidenceKind
  reason : String
  step : Int
  deriving DecidableEq, Repr

structure ReadRange where
  start : Int
  stop : Int
  step : Int
  deriving DecidableEq, Repr

def ReadRange.args (range : ReadRange) : ToolArgs :=
  { start := .value range.start, stop := .value range.stop }

/-- Pairs of texts, in the order of tuples. -/
abbrev Signature := (List Char) ×ₗ (List Char)

def signature (pair : String × String) : Signature := toLex (pair.1.toList, pair.2.toList)

structure EditDecisionWatchdog where
  totalDecisions : Nat := 0
  editDecisions : Nat := 0
  evidenceDecisions : Nat := 0
  evidenceExecuted : Nat := 0
  evidenceRejectedNoProgress : Nat := 0
  noProgressStreak : Nat := 0
  lastProgressKind : Option EvidenceKind := none
  lastProgressStep : Int := 0
  seenReads : Dict String (List ReadRange) := ∅
  seenSearches : List Signature := []
  seenSymbols : List Signature := []
  /-- The digest at the last executed read. -/
  fileHashes : Dict String String := ∅

/-- What `file_hash_fn` answers, `none` also where it raises or there is none. -/
abbrev FileHash := String → Option String

namespace EditDecisionWatchdog

variable (u : Unicode) (hash : FileHash) (w : EditDecisionWatchdog)

def recordDecision (kind : String) : EditDecisionWatchdog :=
  if kind = "edit" then
    { w with totalDecisions := w.totalDecisions + 1, editDecisions := w.editDecisions + 1 }
  else
    { w with totalDecisions := w.totalDecisions + 1, evidenceDecisions := w.evidenceDecisions + 1 }

def recordNoProgress : EditDecisionWatchdog :=
  { w with
    evidenceRejectedNoProgress := w.evidenceRejectedNoProgress + 1
    noProgressStreak := w.noProgressStreak + 1 }

def symbolSignature (args : ToolArgs) : Signature :=
  signature (u.canonicalPath args.path, u.casefold (strip (args.query.getD "")))

def searchSignature (args : ToolArgs) : Signature := signature (u.normalizeSearch args)

/-- A digest is known for the file and is not the one of the last executed read. -/
def changed (path : String) : Bool :=
  match w.fileHashes.lookup path, hash path with
  | some previous, some current => current ≠ previous
  | _, _ => false

/-- `_classify_read`, `none` where a line number is not one. -/
def classifyRead (args : ToolArgs) (step : Int) : Option EvidenceClassification :=
  let path := u.canonicalPath args.path
  let prior := (w.seenReads.lookup path).getD []
  if path = "" then some ⟨true, .newFile, "read without canonical path", step⟩
  else if w.changed hash path then
    some ⟨true, .reReadAfterChange, "re-read of " ++ path ++ " after file change", step⟩
  else if prior = [] then some ⟨true, .newFile, "first read of " ++ path, step⟩
  else do
    let repeated ← prior.anyM fun range => overlapsBy (4 / 5) args range.args
    if repeated then
      some ⟨false, .repeatedEvidence,
        "identical/overlapping read of " ++ path ++ " with no file change", step⟩
    else some ⟨true, .newRange, "non-overlapping evidence in " ++ path, step⟩

def classifyEvidenceRequest (name : String) (args : ToolArgs) (step : Int) :
    Option EvidenceClassification :=
  if name = "read_file" then w.classifyRead u hash args step
  else if name = "search" then
    if searchSignature u args ∈ w.seenSearches then
      some ⟨false, .repeatedEvidence, "identical search already executed", step⟩
    else some ⟨true, .newSearch, "new search over the workspace", step⟩
  else if name = "symbol_search" then
    if symbolSignature u args ∈ w.seenSymbols then
      some ⟨false, .repeatedEvidence, "identical symbol query already executed", step⟩
    else some ⟨true, .newSymbol, "new symbol lookup " ++ u.repr (args.query.getD ""), step⟩
  else some ⟨true, .unclassified, "evidence tool " ++ name ++ " not classified", step⟩

def kindFor (name : String) : EvidenceKind :=
  if name = "read_file" then .newFile
  else if name = "search" then .newSearch
  else if name = "symbol_search" then .newSymbol
  else .evidence

/-- The digest is taken over where it is a text that is not empty. -/
def rememberHash (path : String) : Dict String String :=
  match hash path with
  | some current => if current = "" then w.fileHashes else w.fileHashes.insert path current
  | none => w.fileHashes

/-- The executed read; a line number that is not one leaves the empty list of `setdefault`. -/
def markRead (args : ToolArgs) (step : Int) : EditDecisionWatchdog :=
  let path := u.canonicalPath args.path
  let prior := (w.seenReads.lookup path).getD []
  if path = "" then w
  else
    match args.start.toInt 1, args.stop.toInt 200 with
    | some start, some stop =>
        { w with
          seenReads := w.seenReads.insert path
            (lastN maxTrackedReadRangesPerPath (prior ++ [⟨start, stop, step⟩]))
          fileHashes := w.rememberHash hash path }
    | _, _ => { w with seenReads := w.seenReads.insert path prior }

/-- What `mark_evidence_executed` leaves, also where it raises. -/
def markEvidenceExecuted (name : String) (args : ToolArgs) (step : Int) : EditDecisionWatchdog :=
  let w :=
    { w with
      evidenceExecuted := w.evidenceExecuted + 1
      lastProgressKind := some (kindFor name)
      lastProgressStep := step
      noProgressStreak := 0 }
  if name = "read_file" then w.markRead u hash args step
  else if name = "search" then
    { w with
      seenSearches := remember maxTrackedSearches w.seenSearches (searchSignature u args) }
  else if name = "symbol_search" then
    { w with seenSymbols := remember maxTrackedSymbols w.seenSymbols (symbolSignature u args) }
  else w

end EditDecisionWatchdog

/-! ## Histories -/

/-- The calls that change the watchdog, each with the digests of its time. -/
inductive EditDecisionCall
  | reset
  | recordDecision (kind : String)
  | markEvidenceExecuted (hash : FileHash) (name : String) (args : ToolArgs) (step : Int)
  | recordNoProgress

def EditDecisionCall.apply (u : Unicode) (w : EditDecisionWatchdog) :
    EditDecisionCall → EditDecisionWatchdog
  | .reset => {}
  | .recordDecision kind => w.recordDecision kind
  | .markEvidenceExecuted hash name args step => w.markEvidenceExecuted u hash name args step
  | .recordNoProgress => w.recordNoProgress

def EditDecisionWatchdog.after (u : Unicode) (history : List EditDecisionCall) :
    EditDecisionWatchdog :=
  history.foldl (EditDecisionCall.apply u) {}

variable {u : Unicode} {hash : FileHash} {w : EditDecisionWatchdog} {args : ToolArgs}
  {name path : String} {step : Int}

namespace EditDecisionWatchdog

/-- The sets are within their bounds, and no digest is the empty text. -/
structure Sound (w : EditDecisionWatchdog) : Prop where
  searches : w.seenSearches.Nodup
  fewSearches : w.seenSearches.length ≤ maxTrackedSearches
  symbols : w.seenSymbols.Nodup
  fewSymbols : w.seenSymbols.length ≤ maxTrackedSymbols
  digests : ∀ path, w.fileHashes.lookup path ≠ some ""

theorem sound_initial : Sound {} where
  searches := List.nodup_nil
  fewSearches := Nat.zero_le _
  symbols := List.nodup_nil
  fewSymbols := Nat.zero_le _
  digests path := by
    rw [AList.lookup_empty]
    exact Option.some_ne_none "" |>.symm

theorem lookup_rememberHash_ne (h : Sound w) (hash : FileHash) (path other : String) :
    (w.rememberHash hash path).lookup other ≠ some "" := by
  unfold rememberHash
  split
  · next current hcurrent =>
      split
      · exact h.digests other
      · next hne =>
          by_cases hother : other = path
          · rw [hother, AList.lookup_insert]
            exact fun heq => hne (Option.some.inj heq)
          · rw [AList.lookup_insert_ne hother]
            exact h.digests other
  · exact h.digests other

theorem Sound.markRead (h : Sound w) (u : Unicode) (hash : FileHash) (args : ToolArgs) (step : Int) :
    Sound (w.markRead u hash args step) := by
  unfold EditDecisionWatchdog.markRead
  dsimp only
  split
  · exact h
  · split
    · exact ⟨h.searches, h.fewSearches, h.symbols, h.fewSymbols, lookup_rememberHash_ne h hash _⟩
    · exact ⟨h.searches, h.fewSearches, h.symbols, h.fewSymbols, h.digests⟩

theorem Sound.apply (h : Sound w) (u : Unicode) (call : EditDecisionCall) :
    Sound (call.apply u w) := by
  cases call with
  | reset => exact sound_initial
  | recordDecision kind =>
      show Sound (w.recordDecision kind)
      unfold recordDecision
      split
      · exact ⟨h.searches, h.fewSearches, h.symbols, h.fewSymbols, h.digests⟩
      · exact ⟨h.searches, h.fewSearches, h.symbols, h.fewSymbols, h.digests⟩
  | recordNoProgress => exact ⟨h.searches, h.fewSearches, h.symbols, h.fewSymbols, h.digests⟩
  | markEvidenceExecuted hash name args step =>
      show Sound (w.markEvidenceExecuted u hash name args step)
      unfold EditDecisionWatchdog.markEvidenceExecuted
      dsimp only
      split
      · apply Sound.markRead
        exact ⟨h.searches, h.fewSearches, h.symbols, h.fewSymbols, h.digests⟩
      · split
        · exact ⟨nodup_remember h.searches, length_remember_le, h.symbols, h.fewSymbols, h.digests⟩
        · split
          · exact ⟨h.searches, h.fewSearches, nodup_remember h.symbols, length_remember_le,
              h.digests⟩
          · exact ⟨h.searches, h.fewSearches, h.symbols, h.fewSymbols, h.digests⟩

theorem sound_after (u : Unicode) (history : List EditDecisionCall) :
    Sound (EditDecisionWatchdog.after u history) := by
  have hrun : ∀ w : EditDecisionWatchdog, Sound w →
      Sound (history.foldl (EditDecisionCall.apply u) w) := by
    induction history with
    | nil => exact fun w h => h
    | cons call history ih => exact fun w h => ih _ (h.apply u call)
  exact hrun {} sound_initial

/-! ## Reads -/

theorem normpath_ne_empty (path : String) : normpath path ≠ "" := by
  unfold normpath
  dsimp only
  split
  · decide
  · assumption

theorem canonicalPath_ne_empty (hcasefold : ∀ s, s ≠ "" → u.casefold s ≠ "")
    (path : Option String) : u.canonicalPath path ≠ "" :=
  hcasefold _ (normpath_ne_empty _)

/-- A range overlaps itself wholly. -/
theorem overlapsBy_self {start stop : Int} (hstart : args.start.toInt 1 = some start)
    (hstop : args.stop.toInt 200 = some stop) (hle : start ≤ stop) (step : Int) :
    overlapsBy (4 / 5) args (ReadRange.args ⟨start, stop, step⟩) = some true := by
  have hlength : 0 < stop - start + 1 := by omega
  have hratio : readOverlapRatio args (ReadRange.args ⟨start, stop, step⟩) = some 1 := by
    unfold readOverlapRatio
    rw [hstart, hstop]
    show some (if 0 < min (stop - start + 1) (stop - start + 1) then
      ((max 0 (min stop stop - max start start + 1) : Int) : ℚ) /
        (min (stop - start + 1) (stop - start + 1) : Int) else 0) = some 1
    rw [min_self, min_self, max_self, max_eq_right (by omega), if_pos hlength, div_self]
    exact Int.cast_ne_zero.mpr (by omega)
  have hall : (4 / 5 : ℚ) ≤ 1 := by norm_num
  unfold overlapsBy
  rw [hratio, Option.map_some, decide_eq_true hall]

theorem overlapsBy_range {start stop : Int} (hstart : args.start.toInt 1 = some start)
    (hstop : args.stop.toInt 200 = some stop) (range : ReadRange) :
    (overlapsBy (4 / 5) args range.args).isSome := by
  unfold overlapsBy readOverlapRatio
  rw [hstart, hstop]
  rfl

theorem anyM_of_last {α : Type} {f : α → Option Bool} {before : List α} {last : α}
    (hbefore : ∀ x ∈ before, (f x).isSome) (hlast : f last = some true) :
    (before ++ [last]).anyM f = some true := by
  induction before with
  | nil =>
      rw [List.nil_append, List.anyM, hlast]
      rfl
  | cons x before ih =>
      rw [List.forall_mem_cons] at hbefore
      obtain ⟨hit, hx⟩ := Option.isSome_iff_exists.mp hbefore.1
      rw [List.cons_append, List.anyM, hx]
      cases hit with
      | true => rfl
      | false => exact ih hbefore.2

/-- After a read the file counts as changed only where the digest is the empty text. -/
theorem changed_rememberHash (h : Sound w) (hash : FileHash) (path : String)
    (reads : Dict String (List ReadRange)) :
    EditDecisionWatchdog.changed hash
        { w with seenReads := reads, fileHashes := w.rememberHash hash path } path = true ↔
      hash path = some "" ∧ (w.fileHashes.lookup path).isSome := by
  unfold changed rememberHash
  cases hcase : hash path with
  | none =>
      refine iff_of_false ?_ fun h => by cases h.1
      cases w.fileHashes.lookup path <;> exact Bool.false_ne_true
  | some current =>
      dsimp only
      rw [Option.some.injEq]
      by_cases hempty : current = ""
      · rw [if_pos hempty]
        cases hprevious : w.fileHashes.lookup path with
        | none => exact iff_of_false Bool.false_ne_true fun h => Bool.false_ne_true h.2
        | some previous =>
            refine iff_of_true (decide_eq_true fun hsame => ?_) ⟨hempty, rfl⟩
            rw [hempty] at hsame
            exact h.digests path (hprevious.trans (congrArg some hsame.symm))
      · rw [if_neg hempty, AList.lookup_insert]
        exact iff_of_false (fun h => of_decide_eq_true h rfl) fun h => hempty h.1

/-- What a read leaves, with line numbers. -/
theorem markRead_eq (hpath : u.canonicalPath args.path ≠ "") {start stop : Int}
    (hstart : args.start.toInt 1 = some start) (hstop : args.stop.toInt 200 = some stop) :
    w.markRead u hash args step =
      { w with
        seenReads := w.seenReads.insert (u.canonicalPath args.path)
          (lastN maxTrackedReadRangesPerPath
            ((w.seenReads.lookup (u.canonicalPath args.path)).getD [] ++ [⟨start, stop, step⟩]))
        fileHashes := w.rememberHash hash (u.canonicalPath args.path) } := by
  unfold markRead
  dsimp only
  rw [if_neg hpath, hstart, hstop]

/-- A read that has just been executed is repeated evidence. -/
theorem Sound.classifyRead_markRead (h : Sound w) (hpath : u.canonicalPath args.path ≠ "")
    {start stop : Int} (hstart : args.start.toInt 1 = some start)
    (hstop : args.stop.toInt 200 = some stop) (hle : start ≤ stop) (step later : Int) :
    ∃ c, (w.markRead u hash args step).classifyRead u hash args later = some c ∧
      (c.progress = true ↔ hash (u.canonicalPath args.path) = some "" ∧
        (w.fileHashes.lookup (u.canonicalPath args.path)).isSome) := by
  have hranges := lastN_concat (maxTrackedReadRangesPerPath - 1)
    ((w.seenReads.lookup (u.canonicalPath args.path)).getD [])
    (⟨start, stop, step⟩ : ReadRange)
  rw [markRead_eq hpath hstart hstop, show maxTrackedReadRangesPerPath =
    maxTrackedReadRangesPerPath - 1 + 1 from rfl, hranges]
  generalize lastN (maxTrackedReadRangesPerPath - 1)
    ((w.seenReads.lookup (u.canonicalPath args.path)).getD []) = before
  rw [← changed_rememberHash h hash (u.canonicalPath args.path)
    (w.seenReads.insert (u.canonicalPath args.path) (before ++ [⟨start, stop, step⟩]))]
  unfold classifyRead
  dsimp only
  rw [if_neg hpath]
  split
  · next hchanged => exact ⟨_, rfl, iff_of_true rfl hchanged⟩
  · next hsame =>
      have hknown : ∀ range ∈ before, (overlapsBy (4 / 5) args range.args).isSome :=
        fun range _ => overlapsBy_range hstart hstop range
      have hany := anyM_of_last hknown (overlapsBy_self hstart hstop hle step)
      have hsome : before ++ [(⟨start, stop, step⟩ : ReadRange)] ≠ [] :=
        List.append_ne_nil_of_right_ne_nil _ (List.cons_ne_nil _ _)
      rw [AList.lookup_insert, Option.getD_some, if_neg hsome, hany]
      exact ⟨_, rfl, iff_of_false Bool.false_ne_true hsame⟩

/-! ## What is remembered -/

/-- The set of searches or symbols is not crowded for the request, or the digest of the file
is not the empty text after another one. -/
def Remembers (u : Unicode) (hash : FileHash) (w : EditDecisionWatchdog) (name : String)
    (args : ToolArgs) : Prop :=
  if name = "read_file" then
    ¬ (hash (u.canonicalPath args.path) = some "" ∧
      (w.fileHashes.lookup (u.canonicalPath args.path)).isSome)
  else if name = "search" then
    ¬ Crowded maxTrackedSearches w.seenSearches (searchSignature u args)
  else ¬ Crowded maxTrackedSymbols w.seenSymbols (symbolSignature u args)

section Executed

/-- The request is classified as no progress. -/
def NoProgress (u : Unicode) (hash : FileHash) (w : EditDecisionWatchdog) (name : String)
    (args : ToolArgs) (step : Int) : Prop :=
  ∃ c, w.classifyEvidenceRequest u hash name args step = some c ∧ c.progress = false

theorem Sound.executed_read (h : Sound w) (hpath : u.canonicalPath args.path ≠ "")
    {start stop : Int} (hstart : args.start.toInt 1 = some start)
    (hstop : args.stop.toInt 200 = some stop) (hle : start ≤ stop) (step later : Int) :
    (w.markEvidenceExecuted u hash "read_file" args step).NoProgress u hash "read_file" args later ↔
      w.Remembers u hash "read_file" args := by
  have hcounted : Sound
      { w with
        evidenceExecuted := w.evidenceExecuted + 1
        lastProgressKind := some (kindFor "read_file")
        lastProgressStep := step
        noProgressStreak := 0 } :=
    ⟨h.searches, h.fewSearches, h.symbols, h.fewSymbols, h.digests⟩
  obtain ⟨c, hc, hprogress⟩ :=
    hcounted.classifyRead_markRead hpath hstart hstop hle step later
  unfold NoProgress markEvidenceExecuted classifyEvidenceRequest Remembers
  simp only [reduceIte]
  rw [hc, ← hprogress, Bool.not_eq_true]
  constructor
  · rintro ⟨c', hc', hnone⟩
    rw [Option.some.inj hc']
    exact hnone
  · exact fun hnone => ⟨c, rfl, hnone⟩

theorem classified_iff {p : Prop} [Decidable p] {repeated fresh : EvidenceClassification}
    (hrepeated : repeated.progress = false) (hfresh : fresh.progress = true) :
    (∃ c, (if p then some repeated else some fresh) = some c ∧ c.progress = false) ↔ p := by
  split
  · next hp => exact iff_of_true ⟨repeated, rfl, hrepeated⟩ hp
  · next hp =>
      refine iff_of_false ?_ hp
      rintro ⟨c, hc, hnone⟩
      rw [← Option.some.inj hc, hfresh] at hnone
      cases hnone

theorem Sound.executed_search (h : Sound w) (hash : FileHash) (args : ToolArgs) (step later : Int) :
    (w.markEvidenceExecuted u hash "search" args step).NoProgress u hash "search" args later ↔
      w.Remembers u hash "search" args := by
  unfold NoProgress markEvidenceExecuted classifyEvidenceRequest Remembers
  simp only [String.reduceEq, reduceIte]
  rw [classified_iff rfl rfl]
  exact mem_remember_iff h.searches h.fewSearches

theorem Sound.executed_symbol (h : Sound w) (hash : FileHash) (args : ToolArgs) (step later : Int) :
    (w.markEvidenceExecuted u hash "symbol_search" args step).NoProgress u hash "symbol_search"
      args later ↔ w.Remembers u hash "symbol_search" args := by
  unfold NoProgress markEvidenceExecuted classifyEvidenceRequest Remembers
  simp only [String.reduceEq, reduceIte]
  rw [classified_iff rfl rfl]
  exact mem_remember_iff h.symbols h.fewSymbols

end Executed

end EditDecisionWatchdog

/-- A request of an evidence tool; the lines of a read are a range. -/
structure ValidEvidence (name : String) (args : ToolArgs) : Prop where
  tool : name ∈ ["read_file", "search", "symbol_search"]
  range : name = "read_file" → ∃ start stop, args.start.toInt 1 = some start ∧
    args.stop.toInt 200 = some stop ∧ start ≤ stop

/-- After any history, a request that has just been executed is no progress exactly when it is
remembered. -/
theorem executed_no_progress_iff (u : Unicode) (hcasefold : ∀ s, s ≠ "" → u.casefold s ≠ "")
    (history : List EditDecisionCall) (hash : FileHash) (name : String) (args : ToolArgs)
    (hvalid : ValidEvidence name args) (step later : Int) :
    ((EditDecisionWatchdog.after u history).markEvidenceExecuted u hash name args step).NoProgress
        u hash name args later ↔
      (EditDecisionWatchdog.after u history).Remembers u hash name args := by
  have hsound := EditDecisionWatchdog.sound_after u history
  generalize EditDecisionWatchdog.after u history = w at hsound ⊢
  have htool := hvalid.tool
  rw [List.mem_cons, List.mem_cons, List.mem_singleton] at htool
  rcases htool with rfl | rfl | rfl
  · obtain ⟨start, stop, hstart, hstop, hle⟩ := hvalid.range rfl
    exact hsound.executed_read (EditDecisionWatchdog.canonicalPath_ne_empty hcasefold args.path)
      hstart hstop hle step later
  · exact hsound.executed_search hash args step later
  · exact hsound.executed_symbol hash args step later

theorem asciiUnicode_casefold (s : String) (h : s ≠ "") : asciiUnicode.casefold s ≠ "" := by
  intro hempty
  have hchars := congrArg String.toList hempty
  rw [asciiUnicode, String.toList_ofList] at hchars
  exact h (String.toList_eq_nil_iff.mp (List.map_eq_nil_iff.mp hchars))

/-- The first read of a file, once executed. -/
theorem first_read_remembered :
    ((EditDecisionWatchdog.after asciiUnicode []).markEvidenceExecuted asciiUnicode
      (fun _ => some "0f") "read_file" { path := some "README.md" } 1).NoProgress asciiUnicode
      (fun _ => some "0f") "read_file" { path := some "README.md" } 2 :=
  (executed_no_progress_iff asciiUnicode asciiUnicode_casefold [] (fun _ => some "0f") "read_file"
    { path := some "README.md" }
    ⟨by decide, fun _ => ⟨1, 200, rfl, rfl, by decide⟩⟩ 1 2).mpr fun h => by
      have hdigest := Option.some.inj h.1
      revert hdigest
      decide

/-! ## A search that is forgotten at once -/

/-- Searches for `b00`, `b01` and so on. -/
def laterSearches : List ToolArgs :=
  (List.range 64).map fun n =>
    { path := some "."
      pattern := some (String.ofList ['b', Nat.digitChar (n / 8), Nat.digitChar (n % 8)]) }

theorem seenSearches_searches (u : Unicode) (searches : List ToolArgs) (w : EditDecisionWatchdog) :
    ((searches.map fun args => EditDecisionCall.markEvidenceExecuted (fun _ => none) "search" args
        1).foldl (EditDecisionCall.apply u) w).seenSearches =
      (searches.map (EditDecisionWatchdog.searchSignature u)).foldl (remember maxTrackedSearches)
        w.seenSearches := by
  induction searches generalizing w with
  | nil => rfl
  | cons args searches ih =>
      rw [List.map_cons, List.foldl_cons, ih]
      rfl

theorem searchSignature_pattern (pattern : List Char) :
    EditDecisionWatchdog.searchSignature asciiUnicode
        { path := some ".", pattern := some (String.ofList pattern) } =
      toLex (['.'], (collapseSpaces false (stripList isSpace pattern)).map Char.toLower) := by
  have hpath : (asciiUnicode.canonicalPath (some ".")).toList = ['.'] := by decide +kernel
  rw [EditDecisionWatchdog.searchSignature, signature, Unicode.normalizeSearch, hpath]
  simp only [asciiUnicode, normalizeSpaces, strip, Option.getD_some, String.toList_ofList]

theorem laterSearch_signatures :
    (laterSearches.map (EditDecisionWatchdog.searchSignature asciiUnicode)) =
      (List.range 64).map fun n =>
        toLex (['.'], ['b', Nat.digitChar (n / 8), Nat.digitChar (n % 8)]) := by
  have hplain : ∀ i < 8, ∀ j < 8,
      (collapseSpaces false (stripList isSpace ['b', Nat.digitChar i, Nat.digitChar j])).map
        Char.toLower = ['b', Nat.digitChar i, Nat.digitChar j] := by
    decide +kernel
  rw [laterSearches, List.map_map]
  refine List.map_congr_left fun n hn => ?_
  rw [List.mem_range] at hn
  rw [Function.comp_apply, searchSignature_pattern,
    hplain (n / 8) (by omega) (n % 8) (Nat.mod_lt n (by decide))]

theorem laterSearches_nodup :
    ((List.range 64).map fun n =>
      (toLex (['.'], ['b', Nat.digitChar (n / 8), Nat.digitChar (n % 8)]) : Signature)).Nodup := by
  have hdigit : ∀ i < 8, ∀ j < 8, Nat.digitChar i = Nat.digitChar j → i = j := by decide
  refine List.nodup_range.map_on fun n hn m hm h => ?_
  rw [List.mem_range] at hn hm
  rw [toLex_inj, Prod.mk.injEq, List.cons.injEq, List.cons.injEq, List.cons.injEq] at h
  have hlast := List.head_eq_of_cons_eq h.2.2.2
  have hhigh := hdigit (n / 8) (by omega) (m / 8) (by omega) h.2.2.1
  have hlow := hdigit (n % 8) (by omega) (m % 8) (by omega) hlast
  omega

/-- After 64 other searches, a search for `a` is new evidence again and again. -/
theorem early_search_forgotten :
    ¬ ((EditDecisionWatchdog.after asciiUnicode (laterSearches.map fun args =>
          .markEvidenceExecuted (fun _ => none) "search" args 1)).markEvidenceExecuted asciiUnicode
        (fun _ => none) "search" { path := some ".", pattern := some "a" } 2).NoProgress asciiUnicode
      (fun _ => none) "search" { path := some ".", pattern := some "a" } 3 := by
  rw [(EditDecisionWatchdog.sound_after asciiUnicode _).executed_search]
  have hsignature : EditDecisionWatchdog.searchSignature asciiUnicode
      { path := some ".", pattern := some "a" } = toLex (['.'], ['a']) := by decide +kernel
  have hcrowded : Crowded maxTrackedSearches
      (((List.range 64).map fun n =>
        toLex (['.'], ['b', Nat.digitChar (n / 8), Nat.digitChar (n % 8)])).foldl
          (remember maxTrackedSearches) []) (toLex (['.'], ['a'])) := by
    have hafter : ∀ n : Nat, (toLex (['.'], ['a']) : Signature) <
        toLex (['.'], ['b', Nat.digitChar (n / 8), Nat.digitChar (n % 8)]) := fun n =>
      Prod.Lex.toLex_lt_toLex.mpr (.inr ⟨rfl, List.Lex.rel (by decide)⟩)
    rw [foldl_remember_of_nodup, List.append_nil]
    · refine ⟨by simp [maxTrackedSearches], fun hmem => ?_, fun other hother => ?_⟩
      · obtain ⟨n, -, hn⟩ := List.mem_map.mp (List.mem_reverse.mp hmem)
        exact absurd hn (hafter n).ne'
      · obtain ⟨n, -, rfl⟩ := List.mem_map.mp (List.mem_reverse.mp hother)
        exact hafter n
    · rw [List.append_nil, List.nodup_reverse]
      exact laterSearches_nodup
    · simp [maxTrackedSearches]
  intro hremembers
  apply hremembers
  rw [EditDecisionWatchdog.after, seenSearches_searches, laterSearch_signatures, hsignature]
  exact hcrowded

end Agent
end CodeCub

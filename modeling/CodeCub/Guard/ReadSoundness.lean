import CodeCub.Guard.ReadGuard

/-!
# Soundness of the read guard

A record is backed when every line of it came back from a successful read of the
file it denotes, at the version it names.  Merging, truncation and coverage only
ever combine backed records, so what the guard withholds was read before, as long
as folding a path never changes the file it denotes.
-/

namespace CodeCub
namespace Guard

open Python

variable {P C : Type}

/-- Folding the path, once or twice, leaves the file it denotes alone. -/
def Workspace.Faithful (ws : Workspace P C) (path : String) : Prop :=
  ws.resolve (ws.canonicalPath path) = ws.resolve path ∧
    ws.resolve (ws.canonicalPath (ws.canonicalPath path)) = ws.resolve path

/-- `n` came back from an earlier read of the file, whose content was `content`. -/
def WasRead (reads : List (ReadEvent P C)) (file : P) (content : C) (n : Int) : Prop :=
  ∃ event ∈ reads, event.file = file ∧ event.content = content ∧
    Span.Within n event.requested ∧ Span.Covered n event.returned

/-- The ranges that came back with an answer that was not an error. -/
def ReadResponse.answered : ReadResponse → Option (List Span)
  | .suppressed _ => some []
  | .returned ranges => some ranges
  | _ => none

namespace Workspace

variable (ws : Workspace P C) [DecidableEq P]

/-- Whatever an answered read withholds was read before at the present content. -/
def GuardSound (s : GuardState P C) (step : GuardStep P C) : Prop :=
  match step with
  | .setFile _ _ => True
  | .read args _ _ => ∀ ranges, (ws.turn.out s step).answered = some ranges →
      ∀ n, Span.Within n args.span → ¬ Span.Covered n ranges →
        ∃ file content, ws.resolve args.path = some file ∧ s.files file = some content ∧
          WasRead s.reads file content n

/-- The step reads through a faithful path, or is no read. -/
def FaithfulStep (_ : GuardState P C) : GuardStep P C → Prop
  | .read args _ _ => ws.Faithful args.path
  | .setFile _ _ => True

/-- Every line of the record was read from the file that the record's path
denotes, at a content with the record's digest. -/
def Backed (reads : List (ReadEvent P C)) (record : ReadRangeRecord) : Prop :=
  ∀ n, Span.Within n record.span →
    ∃ file content, ws.resolve record.path = some file ∧
      record.freshness = some (ws.sha256 content) ∧ WasRead reads file content n

end Workspace

/-- Every line of `record` is a line of some record of `records`, of the same file
and version. -/
def Absorbs (records : List ReadRangeRecord) (record : ReadRangeRecord) : Prop :=
  ∀ n, Span.Within n record.span → ∃ other ∈ records, other.path = record.path ∧
    other.freshness = record.freshness ∧ Span.Within n other.span

theorem absorbs_of_mem {records : List ReadRangeRecord} {record : ReadRangeRecord}
    (h : record ∈ records) : Absorbs records record :=
  fun _ hn => ⟨record, h, rfl, rfl, hn⟩

/-- The span that the merging loop carries is made of the spans it touched. -/
theorem absorb_covered {start stop : Int} {step : Nat} {retained pending : List ReadRangeRecord}
    {n : Int}
    (h : Span.Within n ((absorb start stop step retained pending).1.1,
      (absorb start stop step retained pending).1.2.1)) :
    Span.Within n (start, stop) ∨ ∃ record ∈ pending, Span.Within n record.span := by
  induction pending generalizing start stop step retained with
  | nil => exact Or.inl h
  | cons record pending ih =>
      rw [absorb] at h
      split at h
      · rcases ih h with h | ⟨other, hmem, hn⟩
        · exact Or.inl h
        · exact Or.inr ⟨other, List.mem_cons_of_mem _ hmem, hn⟩
      · next htouch =>
          rcases ih h with h | ⟨other, hmem, hn⟩
          · -- the two spans touch, so their hull is their union
            have hunion : Span.Within n (start, stop) ∨ Span.Within n record.span := by
              unfold Span.Within ReadRangeRecord.span at *
              simp only at h ⊢
              omega
            rcases hunion with h | h
            · exact Or.inl h
            · exact Or.inr ⟨record, List.mem_cons_self, h⟩
          · exact Or.inr ⟨other, List.mem_cons_of_mem _ hmem, hn⟩

theorem absorb_retained {start stop : Int} {step : Nat}
    {retained pending : List ReadRangeRecord} {record : ReadRangeRecord}
    (h : record ∈ (absorb start stop step retained pending).2) :
    record ∈ retained ∨ record ∈ pending := by
  induction pending generalizing start stop step retained with
  | nil => exact Or.inl h
  | cons head pending ih =>
      rw [absorb] at h
      split at h
      · rcases ih h with h | h
        · rcases List.mem_append.mp h with h | h
          · exact Or.inl h
          · rw [List.mem_singleton.mp h]
            exact Or.inr List.mem_cons_self
        · exact Or.inr (List.mem_cons_of_mem _ h)
      · rcases ih h with h | h
        · exact Or.inl h
        · exact Or.inr (List.mem_cons_of_mem _ h)

theorem compatible_iff {record other : ReadRangeRecord} :
    record.compatible other = true ↔
      record.path = other.path ∧ record.freshness = other.freshness := by
  simp [ReadRangeRecord.compatible]

/-- Merging makes no line up. -/
theorem mergeReadRanges_absorbs {records : List ReadRangeRecord}
    {newRecord record : ReadRangeRecord} (h : record ∈ mergeReadRanges records newRecord) :
    Absorbs (newRecord :: records) record := by
  unfold mergeReadRanges at h
  simp only [List.mem_mergeSort, List.mem_append, List.mem_singleton] at h
  rcases h with h | rfl
  · refine absorbs_of_mem (List.mem_cons_of_mem _ ?_)
    rcases absorb_retained h with h | h
    · exact (List.mem_filter.mp h).1
    · exact (List.mem_filter.mp (List.mem_mergeSort.mp h)).1
  · intro n hn
    rcases absorb_covered hn with hn | ⟨other, hmem, hn⟩
    · exact ⟨newRecord, List.mem_cons_self, rfl, rfl, hn⟩
    · obtain ⟨hmem, hcompat⟩ := List.mem_filter.mp (List.mem_mergeSort.mp hmem)
      obtain ⟨hpath, hfresh⟩ := compatible_iff.mp hcompat
      exact ⟨other, List.mem_cons_of_mem _ hmem, hpath, hfresh, hn⟩

namespace Workspace

variable {ws : Workspace P C}

/-- A requested line that is not left open belongs to an earlier record of the same
path and version. -/
theorem analyzeReadCoverage_covered {path : String} {start stop n : Int}
    {previous : List ReadRangeRecord} {version : Option String}
    (hn : Span.Within n (start, stop))
    (hopen : ¬ Span.Covered n
      (ws.analyzeReadCoverage path start stop previous version).uncoveredRanges) :
    ∃ record ∈ previous, record.path = ws.canonicalPath path ∧ record.freshness = version ∧
      Span.Within n record.span := by
  unfold analyzeReadCoverage at hopen
  simp only at hopen
  rcases Span.covered_gaps_or hn.1 hn.2 with h | h
  · exact absurd h hopen
  rcases Span.covered_of_mergeTouching h with h | ⟨span, hspan, hwithin⟩
  · obtain ⟨span, hspan, -⟩ := h
    cases hspan
  · obtain ⟨record, hrecord, hoverlap⟩ := List.mem_filterMap.mp (List.mem_mergeSort.mp hspan)
    obtain ⟨hmem, hsame⟩ := List.mem_filter.mp hrecord
    simp only [Bool.and_eq_true, beq_iff_eq] at hsame
    refine ⟨record, hmem, hsame.1, hsame.2, ?_⟩
    unfold overlap at hoverlap
    simp only at hoverlap
    split at hoverlap
    · cases hoverlap
      unfold Span.Within at hwithin
      exact ⟨le_trans (le_max_right _ _) hwithin.1, le_trans hwithin.2 (min_le_right _ _)⟩
    · cases hoverlap

/-- What `prepare` looked at, and that it leaves the records alone. -/
theorem prepare_cases {files : P → Option C} {planning planning' : Planning} {args : ReadArgs}
    {prepared : PreparedRead} (h : ws.prepare files planning args = some (prepared, planning')) :
    planning'.readRangeLedger = planning.readRangeLedger ∧
    ∃ coverage, coverage = ws.analyzeReadCoverage (ws.canonicalPath args.path) args.startLine
        args.endLine planning.readRangeLedger
        (ws.fileFreshness files (ws.canonicalPath args.path)) ∧
      (∀ notice, prepared = .suppressed notice → coverage.uncoveredRanges = []) ∧
      (∀ coverage' header, prepared = .delta coverage' header → coverage' = coverage) := by
  unfold prepare assessReadRange at h
  simp only at h
  by_cases hempty : ws.canonicalPath args.path = ""
  · simp [hempty] at h
  · rw [if_neg hempty] at h
    simp only at h
    split at h
    · next hcovered =>
        cases h
        refine ⟨rfl, _, rfl, fun _ _ => ?_, by simp⟩
        simpa [ReadCoverage.fullyCovered] using hcovered.2.2
    · split at h
      · cases h
        exact ⟨rfl, _, rfl, by simp, fun coverage' header heq => by cases heq; rfl⟩
      · split at h
        · cases h
          exact ⟨rfl, _, rfl, by simp, by simp⟩
        · split at h
          · cases h
            exact ⟨rfl, _, rfl, by simp, by simp⟩
          · cases h
            exact ⟨rfl, _, rfl, by simp, by simp⟩

/-- Every record of the turn is backed by its reads. -/
def Sound (ws : Workspace P C) (s : GuardState P C) : Prop :=
  ∀ record ∈ s.planning.readRangeLedger, ws.Backed s.reads record

theorem WasRead.append {reads : List (ReadEvent P C)} {file : P} {content : C} {n : Int}
    (h : WasRead reads file content n) (event : ReadEvent P C) :
    WasRead (reads ++ [event]) file content n := by
  obtain ⟨e, hmem, he⟩ := h
  exact ⟨e, List.mem_append_left _ hmem, he⟩

theorem Backed.append {reads : List (ReadEvent P C)} {record : ReadRangeRecord}
    (h : ws.Backed reads record) (event : ReadEvent P C) :
    ws.Backed (reads ++ [event]) record := by
  intro n hn
  obtain ⟨file, content, hfile, hfresh, hread⟩ := h n hn
  exact ⟨file, content, hfile, hfresh, WasRead.append hread event⟩

/-- A record that absorbs backed records is backed. -/
theorem Backed.of_absorbs {reads : List (ReadEvent P C)} {records : List ReadRangeRecord}
    {record : ReadRangeRecord} (habsorbs : Absorbs records record)
    (h : ∀ other ∈ records, ws.Backed reads other) : ws.Backed reads record := by
  intro n hn
  obtain ⟨other, hmem, hpath, hfresh, hother⟩ := habsorbs n hn
  obtain ⟨file, content, hfile, hsha, hread⟩ := h other hmem n hother
  exact ⟨file, content, by rw [← hpath]; exact hfile, by rw [← hfresh]; exact hsha, hread⟩

theorem fileFreshness_eq {files : P → Option C} {path : String} {file : P} {content : C}
    (hfile : ws.resolve path = some file) (hcontent : files file = some content) :
    ws.fileFreshness files path = some (ws.sha256 content) := by
  simp [fileFreshness, hfile, hcontent]

/-- What the coverage of a faithful request does not leave open was read before,
at the present content. -/
theorem withheld_wasRead (hsha : Function.Injective ws.sha256) {s : GuardState P C}
    (hsound : ws.Sound s) {args : ReadArgs} (hfaithful : ws.Faithful args.path) {file : P}
    {content : C} (hfile : ws.resolve args.path = some file)
    (hcontent : s.files file = some content) {n : Int} (hn : Span.Within n args.span)
    (hopen : ¬ Span.Covered n (ws.analyzeReadCoverage (ws.canonicalPath args.path) args.startLine
      args.endLine s.planning.readRangeLedger
      (ws.fileFreshness s.files (ws.canonicalPath args.path))).uncoveredRanges) :
    WasRead s.reads file content n := by
  obtain ⟨record, hmem, hpath, hfresh, hwithin⟩ := analyzeReadCoverage_covered hn hopen
  obtain ⟨file', content', hfile', hsha', hread⟩ := hsound record hmem n hwithin
  -- the record's path and its digest lead back to the file and its present content
  have hsame : file' = file := by
    rw [hpath, hfaithful.2, hfile] at hfile'
    exact (Option.some.inj hfile').symm
  have hversion : ws.fileFreshness s.files (ws.canonicalPath args.path) =
      some (ws.sha256 content) := fileFreshness_eq (hfaithful.1.trans hfile) hcontent
  have hequal : content' = content := by
    rw [hfresh, hversion] at hsha'
    exact (hsha (Option.some.inj hsha')).symm
  rw [← hsame, ← hequal]
  exact hread

/-- A finished read leaves only backed records, when everything it did not return
was read before. -/
theorem finalize_sound {s : GuardState P C} (hsound : ws.Sound s) {planning : Planning}
    (hledger : planning.readRangeLedger = s.planning.readRangeLedger) {args : ReadArgs}
    {step : Nat} (hfaithful : ws.Faithful args.path) {file : P} {content : C}
    (hfile : ws.resolve args.path = some file) (hcontent : s.files file = some content)
    {returned : List Span}
    (hrest : ∀ n, Span.Within n args.span → ¬ Span.Covered n returned →
      WasRead s.reads file content n) :
    ws.Sound (ws.finalize s planning args step file content returned).1 := by
  have hfresh : ws.fileFreshness s.files (ws.canonicalPath args.path) =
      some (ws.sha256 content) := fileFreshness_eq (hfaithful.1.trans hfile) hcontent
  have hold : ∀ record ∈ s.planning.readRangeLedger,
      ws.Backed (s.reads ++ [⟨file, content, args.span, returned⟩]) record :=
    fun record hmem => Backed.append (hsound record hmem) _
  -- the new record is backed by the read itself, and by earlier ones for the rest
  have hnew : ws.Backed (s.reads ++ [⟨file, content, args.span, returned⟩])
      ⟨ws.canonicalPath args.path, args.startLine, args.endLine,
        ws.fileFreshness s.files (ws.canonicalPath args.path), step⟩ := by
    intro n hn
    refine ⟨file, content, hfaithful.1.trans hfile, hfresh, ?_⟩
    by_cases hcovered : Span.Covered n returned
    · exact ⟨_, List.mem_append_right _ List.mem_cons_self, rfl, rfl, hn, hcovered⟩
    · exact WasRead.append (hrest n hn hcovered) _
  intro record hmem
  simp only [finalize, recordReadRange] at hmem
  split at hmem
  · rw [hledger] at hmem
    exact hold record hmem
  · simp only [hledger] at hmem
    refine Backed.of_absorbs (mergeReadRanges_absorbs (List.mem_of_mem_drop hmem)) ?_
    intro other hother
    rcases List.mem_cons.mp hother with rfl | hother
    · exact hnew
    · exact hold other hother

theorem sound_of_ledger {s s' : GuardState P C} (h : ws.Sound s)
    (hledger : s'.planning.readRangeLedger = s.planning.readRangeLedger)
    (hreads : s'.reads = s.reads) : ws.Sound s' := by
  intro record hmem
  rw [hledger] at hmem
  rw [hreads]
  exact h record hmem

variable [DecidableEq P]

/-- One faithful `read_file` withholds only what was read before, and keeps every
record backed. -/
theorem readFile_sound (hsha : Function.Injective ws.sha256) {s : GuardState P C}
    (hsound : ws.Sound s) {args : ReadArgs} (hfaithful : ws.Faithful args.path) (step : Nat)
    (succeeds : Bool) :
    ws.GuardSound s (.read args step succeeds) ∧
      ws.Sound (ws.readFile s args step succeeds).1 := by
  show (∀ ranges, (ws.readFile s args step succeeds).2.answered = some ranges → _) ∧ _
  unfold readFile
  split
  · exact ⟨fun ranges hranges => (nomatch hranges), hsound⟩
  · next file hfile =>
      split
      · exact ⟨fun ranges hranges => (nomatch hranges), hsound⟩
      · next content hcontent =>
          split
          · exact ⟨fun ranges hranges => (nomatch hranges), hsound⟩
          · split
            · exact ⟨fun ranges hranges => (nomatch hranges), hsound⟩
            · next notice planning hprepare =>
                obtain ⟨hledger, coverage, hcoverage, hnone, -⟩ := prepare_cases hprepare
                refine ⟨?_, sound_of_ledger hsound hledger rfl⟩
                intro ranges hranges n hn _
                cases hranges
                refine ⟨file, content, hfile, hcontent, ?_⟩
                refine withheld_wasRead hsha hsound hfaithful hfile hcontent hn ?_
                rw [← hcoverage, hnone notice rfl]
                intro hcovered
                obtain ⟨span, hspan, -⟩ := hcovered
                cases hspan
            · next coverage' header planning hprepare =>
                obtain ⟨hledger, coverage, hcoverage, -, hdelta⟩ := prepare_cases hprepare
                have hrest : ∀ n, Span.Within n args.span →
                    ¬ Span.Covered n coverage'.uncoveredRanges →
                    WasRead s.reads file content n := by
                  intro n hn hopen
                  rw [hdelta coverage' header rfl, hcoverage] at hopen
                  exact withheld_wasRead hsha hsound hfaithful hfile hcontent hn hopen
                cases succeeds with
                | false =>
                    exact ⟨fun ranges hranges => (nomatch hranges),
                      sound_of_ledger hsound hledger rfl⟩
                | true =>
                    refine ⟨?_, finalize_sound hsound hledger hfaithful hfile hcontent hrest⟩
                    intro ranges hranges n hn hopen
                    cases hranges
                    exact ⟨file, content, hfile, hcontent, hrest n hn hopen⟩
            · next action planning hprepare =>
                obtain ⟨hledger, -⟩ := prepare_cases hprepare
                have hall : ∀ n, Span.Within n args.span → Span.Covered n [args.span] :=
                  fun n hn => ⟨args.span, List.mem_cons_self, hn⟩
                cases succeeds with
                | false =>
                    exact ⟨fun ranges hranges => (nomatch hranges),
                      sound_of_ledger hsound hledger rfl⟩
                | true =>
                    refine ⟨?_, finalize_sound hsound hledger hfaithful hfile hcontent
                      fun n hn hopen => absurd (hall n hn) hopen⟩
                    intro ranges hranges n hn hopen
                    cases hranges
                    exact absurd (hall n hn) hopen

theorem turn_sound (hsha : Function.Injective ws.sha256) (s : GuardState P C)
    (step : GuardStep P C) (hsound : ws.Sound s) (hfaithful : ws.FaithfulStep s step) :
    ws.GuardSound s step ∧ ws.Sound (ws.turn.next s step) := by
  cases step with
  | read args step succeeds => exact readFile_sound hsha hsound hfaithful step succeeds
  | setFile file content => exact ⟨trivial, sound_of_ledger hsound rfl rfl⟩

/-- In every turn whose reads go through faithful paths, whatever the guard
withholds was returned by an earlier read of the same file at its present content. -/
theorem read_guard_sound (ws : Workspace P C) (hsha : Function.Injective ws.sha256)
    (files : P → Option C) (steps : List (GuardStep P C))
    (hfaithful : ws.turn.Along ws.FaithfulStep { files } steps) :
    ws.turn.Along ws.GuardSound { files } steps :=
  Machine.along_of_along (P := ws.Sound)
    (fun s step hsound hstep => (turn_sound hsha s step hsound hstep).2)
    (fun s step hsound hstep => (turn_sound hsha s step hsound hstep).1)
    (fun record hmem => by cases hmem) hfaithful

/-- ASCII paths below the root of a case-sensitive workspace without links.  On
these, lower-casing is `casefold`. -/
def asciiWorkspace (sha256 : String → String) : Workspace String String where
  casefold path := String.ofList (path.toList.map Char.toLower)
  resolve path := some (normpath path)
  sha256 := sha256

/-- A digest that is right for the file below and injective. -/
def sampleDigest (content : String) : String :=
  if content = "v1\n" then "2d27fbdf4e8ca207afbfa388ca9172fbcc6c70e534af2476b3b704f87debadcf"
  else "x" ++ content

theorem sampleDigest_injective : Function.Injective sampleDigest := by
  have hhex : ∀ content : String,
      "2d27fbdf4e8ca207afbfa388ca9172fbcc6c70e534af2476b3b704f87debadcf" ≠ "x" ++ content := by
    intro content h
    have hchars := congrArg String.toList h
    rw [String.toList_append] at hchars
    exact absurd (List.cons.inj hchars).1 (by decide)
  intro a b h
  unfold sampleDigest at h
  split at h
  · next ha =>
      split at h
      · next hb => exact ha.trans hb.symm
      · exact absurd h (hhex b)
  · split at h
    · exact absurd h.symm (hhex a)
    · exact String.append_right_inj "x" |>.mp h

/-- A file with an upper-case name that is edited between two reads. -/
def readmeTurn : List (GuardStep String String) :=
  [.read { path := "README.md" } 1 true, .setFile "README.md" (some "v2\n"),
    .read { path := "README.md" } 2 true]

/-- The same turn on a file with a lower-case name. -/
def sourceTurn : List (GuardStep String String) :=
  [.read { path := "src/a.py" } 1 true, .read { path := "src/./a.py" } 2 true]

def sampleFiles (path : String) : Option String :=
  if path = "README.md" ∨ path = "src/a.py" then some "v1\n" else none

/-- The turn just before its second read. -/
def readmeEdited : GuardState String String :=
  (asciiWorkspace sampleDigest).turn.run { files := sampleFiles } (readmeTurn.take 2)

theorem readmeTurn_withholds_edit :
    ¬ (asciiWorkspace sampleDigest).turn.Along (asciiWorkspace sampleDigest).GuardSound
      { files := sampleFiles } readmeTurn := by
  intro hrun
  obtain ⟨-, -, hsound, -⟩ := hrun
  have hsound : (asciiWorkspace sampleDigest).GuardSound readmeEdited
      (.read { path := "README.md" } 2 true) := hsound
  -- the second read is answered without a line, from the record of the first one
  have hanswer : ((asciiWorkspace sampleDigest).turn.out readmeEdited
      (.read { path := "README.md" } 2 true)).answered = some [] := by
    decide +kernel
  have hnow : readmeEdited.files (normpath "README.md") = some "v2\n" := by
    decide +kernel
  have hreads : readmeEdited.reads.map ReadEvent.content = ["v1\n"] := by
    decide +kernel
  obtain ⟨file, content, hfile, hcontent, event, hmem, -, hsame, -⟩ :=
    hsound [] hanswer 1 (by decide) (by decide)
  have hold : event.content = "v1\n" := by
    have hcontents := List.mem_map_of_mem (f := ReadEvent.content) hmem
    rw [hreads] at hcontents
    exact List.mem_singleton.mp hcontents
  cases hfile
  rw [hnow] at hcontent
  rw [← Option.some.inj hcontent, hold] at hsame
  exact absurd hsame (by decide)

theorem sourceTurn_sound :
    (asciiWorkspace sampleDigest).turn.Along (asciiWorkspace sampleDigest).GuardSound
      { files := sampleFiles } sourceTurn := by
  refine read_guard_sound _ sampleDigest_injective sampleFiles sourceTurn ⟨?_, ?_, trivial⟩
  · exact ⟨by decide, by decide⟩
  · exact ⟨by decide, by decide⟩

end Workspace
end Guard
end CodeCub

import CodeCub.Python.LineFiles

/-!
# Topic files of the layered memory

`DurableMemoryStore` of `codecub/memory.py`: an index of topics, and for each topic a
Markdown file in which the notes are list items like the metadata above them.  The text of
a file is read as UTF-8 as it was written.
-/

namespace CodeCub
namespace Layered

open Python

/-- The keys of `DURABLE_TOPIC_DEFAULTS`. -/
inductive DurableTopic
  | projectConventions
  | keyDecisions
  | dependencyFacts
  | userPreferences
  deriving DecidableEq, Repr

/-- An entry of the index. -/
structure IndexTopic where
  topic : Str
  title : Str
  summary : Str
  tags : List Str
  deriving DecidableEq, Repr

/-- `DURABLE_TOPIC_DEFAULTS`, with the key as the topic. -/
def DurableTopic.defaults : DurableTopic → IndexTopic
  | projectConventions =>
      { topic := "project-conventions".toList, title := "Project Conventions".toList
        summary := "Stable repository conventions.".toList, tags := ["convention".toList] }
  | keyDecisions =>
      { topic := "key-decisions".toList, title := "Key Decisions".toList
        summary := "Long-lived decisions and rationale anchors.".toList
        tags := ["decision".toList] }
  | dependencyFacts =>
      { topic := "dependency-facts".toList, title := "Dependency Facts".toList
        summary := "Stable dependency and environment facts.".toList
        tags := ["dependency".toList] }
  | userPreferences =>
      { topic := "user-preferences".toList, title := "User Preferences".toList
        summary := "Stable user preferences.".toList, tags := ["preference".toList] }

def DurableTopic.slug (topic : DurableTopic) : Str := topic.defaults.topic

theorem DurableTopic.slug_injective {a b : DurableTopic} (h : a.slug = b.slug) : a = b := by
  cases a <;> cases b <;> first | rfl | exact absurd h (by decide)

/-- What `now()` gives: an ISO time, without blanks. -/
structure Timestamp where
  text : Str
  nonempty : text ≠ []
  printed : ∀ c ∈ text, 0x20 < c.toNat ∧ c.toNat < 0x7f

theorem Timestamp.isSpace_false (now : Timestamp) : ∀ c ∈ now.text, isSpace c = false := by
  intro c hc
  have hprinted := now.printed c hc
  rw [Bool.eq_false_iff]
  intro hspace
  simp only [isSpace, Bool.or_eq_true, Bool.and_eq_true, decide_eq_true_eq, beq_iff_eq] at hspace
  omega

theorem Timestamp.isLineBreak_false (now : Timestamp) :
    ∀ c ∈ now.text, isLineBreak c = false := by
  intro c hc
  have hprinted := now.printed c hc
  rw [Bool.eq_false_iff]
  intro hbreak
  simp only [isLineBreak, Bool.or_eq_true, Bool.and_eq_true, decide_eq_true_eq, beq_iff_eq]
    at hbreak
  omega

theorem Timestamp.strip_text (now : Timestamp) : stripList isSpace now.text = now.text :=
  stripList_eq_self now.isSpace_false

/-! ## Writing a topic -/

/-- The lines above the notes. -/
def topicHeader (topic : DurableTopic) (now : Timestamp) : List Str :=
  ["# ".toList ++ topic.defaults.title,
    [],
    "- topic: ".toList ++ topic.slug,
    "- summary: ".toList ++ topic.defaults.summary,
    "- tags: ".toList ++ List.intercalate ", ".toList topic.defaults.tags,
    "- updated_at: ".toList ++ now.text,
    [],
    "## Notes".toList]

def bullet (note : Str) : Str := "- ".toList ++ note

/-- `_write_topic`: the text of the topic's file. -/
def topicText (topic : DurableTopic) (now : Timestamp) (notes : List Str) : Str :=
  writeLines (topicHeader topic now ++ notes.map bullet)

/-! ## Loading the notes -/

structure LoadedNote where
  text : Str
  tags : List Str
  source : Str
  createdAt : Str
  kind : Str := "durable".toList
  deriving DecidableEq, Repr

/-- `line.split(":", 1)[1]` of a line with a colon. -/
def afterColon (line : Str) : Str := (line.dropWhile (· ≠ ':')).tail

/-- `[tag.strip() for tag in text.split(",") if tag.strip()]`. -/
def commaTags (text : Str) : List Str :=
  ((text.splitOn ',').map (stripList isSpace)).filter (· ≠ [])

/-- The variables of the loop of `load_topic_notes`. -/
structure TopicScan where
  capture : Bool := false
  updatedAt : Str := []
  tags : List Str := []
  notes : List LoadedNote := []

/-- One line; `loadedAt` is what `now()` gives while the file is read. -/
def scanLine (topic loadedAt : Str) (scan : TopicScan) (raw : Str) : TopicScan :=
  let line := stripList isSpace raw
  if "- tags:".toList.isPrefixOf line then { scan with tags := commaTags (afterColon line) }
  else if "- updated_at:".toList.isPrefixOf line then
    { scan with updatedAt := stripList isSpace (afterColon line) }
  else if line = "## Notes".toList then { scan with capture := true }
  else if scan.capture ∧ "- ".toList.isPrefixOf line then
    { scan with notes := scan.notes ++
        [{ text := stripList isSpace (line.drop 2), tags := scan.tags, source := topic
           createdAt := if scan.updatedAt = [] then loadedAt else scan.updatedAt }] }
  else scan

/-- `load_topic_notes`; `file` is `none` where there is no file. -/
def loadTopicNotes (topic loadedAt : Str) (file : Option Str) : List LoadedNote :=
  match file with
  | none => []
  | some text => ((readLines text).foldl (scanLine topic loadedAt) {}).notes

/-! ## The round trip -/

/-- A note that is not empty, has no blanks around it and is one line. -/
structure Storable (note : Str) : Prop where
  nonempty : note ≠ []
  stripped : stripList isSpace note = note
  oneLine : ∀ c ∈ note, isLineBreak c = false

/-- Behind its bullet the note reads as a line of metadata. -/
def LooksLikeMetadata (note : Str) : Prop :=
  "tags:".toList <+: note ∨ "updated_at:".toList <+: note

instance (note : Str) : Decidable (LooksLikeMetadata note) :=
  inferInstanceAs (Decidable (_ ∨ _))

/-- The note as it should come back. -/
def LoadedNote.of (topic : DurableTopic) (now : Timestamp) (note : Str) : LoadedNote where
  text := note
  tags := topic.defaults.tags
  source := topic.slug
  createdAt := now.text

/-- The notes of a written topic come back, in order, with the topic's default tags. -/
def RoundTrips (topic : DurableTopic) (now : Timestamp) (loadedAt : Str) (notes : List Str) :
    Prop :=
  loadTopicNotes topic.slug loadedAt (some (topicText topic now notes)) =
    notes.map (LoadedNote.of topic now)

variable {topic : DurableTopic} {now : Timestamp} {loadedAt note : Str} {notes : List Str}

theorem bullet_last (h : Storable note) :
    ∃ init c, bullet note = init ++ [c] ∧ isSpace c = false := by
  obtain ⟨init, c, hnote, hc⟩ := last_of_stripped h.nonempty h.stripped
  exact ⟨"- ".toList ++ init, c, by rw [bullet, hnote, List.append_assoc], hc⟩

theorem strip_bullet (h : Storable note) : stripList isSpace (bullet note) = bullet note := by
  apply stripList_of_ends
  · intro c hc
    cases hc
    rfl
  · obtain ⟨init, c, hbullet, hc⟩ := bullet_last h
    rw [hbullet, List.getLast?_concat]
    intro d hd
    cases hd
    exact hc

theorem header_oneLine (topic : DurableTopic) (now : Timestamp) :
    ∀ line ∈ topicHeader topic now, ∀ c ∈ line, isLineBreak c = false := by
  have hupdated : ∀ c ∈ "- updated_at: ".toList ++ now.text, isLineBreak c = false := by
    intro c hc
    rcases List.mem_append.mp hc with hc | hc
    · exact (by decide : ∀ d ∈ "- updated_at: ".toList, isLineBreak d = false) c hc
    · exact now.isLineBreak_false c hc
  unfold topicHeader
  simp only [List.forall_mem_cons]
  refine ⟨?_, ?_, ?_, ?_, ?_, hupdated, ?_, ?_, fun line hline => absurd hline List.not_mem_nil⟩
  all_goals cases topic <;> decide

theorem bullet_oneLine (h : Storable note) : ∀ c ∈ bullet note, isLineBreak c = false := by
  intro c hc
  rcases List.mem_append.mp hc with hc | hc
  · exact (by decide : ∀ d ∈ "- ".toList, isLineBreak d = false) c hc
  · exact h.oneLine c hc

example : bullet "Use uv".toList = "- Use uv".toList := by decide +kernel

/-- The lines that are read are the lines that were written. -/
theorem readLines_topicText (topic : DurableTopic) (now : Timestamp)
    (hnotes : ∀ note ∈ notes, Storable note) :
    readLines (topicText topic now notes) = topicHeader topic now ++ notes.map bullet := by
  have hlines : ∀ line ∈ topicHeader topic now ++ notes.map bullet,
      ∀ c ∈ line, isLineBreak c = false := by
    intro line hline
    rcases List.mem_append.mp hline with hline | hline
    · exact header_oneLine topic now line hline
    · obtain ⟨note, hnote, rfl⟩ := List.mem_map.mp hline
      exact bullet_oneLine (hnotes note hnote)
  unfold topicText
  rcases List.eq_nil_or_concat' notes with rfl | ⟨init, last, rfl⟩
  · exact @readLines_writeLines (topicHeader topic now).dropLast "## Notes".toList hlines
      ⟨"## Note".toList, 's', rfl, rfl⟩
  · rw [List.map_append, List.map_singleton, ← List.append_assoc] at hlines ⊢
    exact readLines_writeLines hlines (bullet_last (hnotes last (by simp)))

/-! ## The scan of the header and of the notes -/

theorem scan_updated (topic loadedAt : Str) (now : Timestamp) (scan : TopicScan) :
    scanLine topic loadedAt scan ("- updated_at: ".toList ++ now.text) =
      { scan with updatedAt := now.text } := by
  have hline : stripList isSpace ("- updated_at: ".toList ++ now.text) =
      "- updated_at: ".toList ++ now.text := by
    obtain ⟨init, c, htext, hc⟩ := last_of_stripped now.nonempty now.strip_text
    apply stripList_of_ends
    · intro d hd
      cases hd
      rfl
    · rw [htext, ← List.append_assoc, List.getLast?_concat]
      intro d hd
      cases hd
      exact hc
  have hvalue : stripList isSpace (afterColon ("- updated_at: ".toList ++ now.text)) =
      now.text := now.strip_text
  have htags : "- tags:".toList.isPrefixOf ("- updated_at: ".toList ++ now.text) = false := rfl
  have hupdated : "- updated_at:".toList.isPrefixOf ("- updated_at: ".toList ++ now.text) = true :=
    rfl
  unfold scanLine
  rw [hline]
  dsimp only
  rw [htags, hupdated, hvalue]
  rfl

/-- After the header the scan waits for notes, with the default tags and the time of the
write. -/
theorem scan_header (topic : DurableTopic) (now : Timestamp) (loadedAt : Str) :
    (topicHeader topic now).foldl (scanLine topic.slug loadedAt) {} =
      { capture := true, updatedAt := now.text, tags := topic.defaults.tags } := by
  have hfront : ((topicHeader topic now).take 5).foldl (scanLine topic.slug loadedAt) {} =
      { tags := topic.defaults.tags } := by
    cases topic <;> rfl
  have hback : ["- updated_at: ".toList ++ now.text, [], "## Notes".toList] =
      (topicHeader topic now).drop 5 := rfl
  rw [← List.take_append_drop 5 (topicHeader topic now), List.foldl_append, hfront, ← hback,
    List.foldl_cons, scan_updated]
  rfl

example : commaTags (afterColon "- tags: uv, ci".toList) = ["uv".toList, "ci".toList] := by
  decide +kernel

theorem tags_bullet (note : Str) :
    "- tags:".toList.isPrefixOf (bullet note) = "tags:".toList.isPrefixOf note := rfl

theorem updated_bullet (note : Str) :
    "- updated_at:".toList.isPrefixOf (bullet note) = "updated_at:".toList.isPrefixOf note := rfl

/-- A note that is no metadata behind its bullet is taken. -/
theorem scan_note {scan : TopicScan} (hcapture : scan.capture = true)
    (hupdated : scan.updatedAt ≠ []) (h : Storable note) (hplain : ¬ LooksLikeMetadata note)
    (slug : Str) :
    scanLine slug loadedAt scan (bullet note) =
      { scan with notes := scan.notes ++
          [{ text := note, tags := scan.tags, source := slug, createdAt := scan.updatedAt }] } := by
  obtain ⟨htags, hdate⟩ := not_or.mp hplain
  have hheading : bullet note ≠ "## Notes".toList := by
    intro heq
    cases (List.cons.inj heq).1
  have htext : stripList isSpace ((bullet note).drop 2) = note := h.stripped
  unfold scanLine
  rw [strip_bullet h]
  dsimp only
  rw [tags_bullet, updated_bullet]
  rw [if_neg (mt List.isPrefixOf_iff_prefix.mp htags),
    if_neg (mt List.isPrefixOf_iff_prefix.mp hdate), if_neg hheading, if_pos ⟨hcapture, rfl⟩,
    htext, if_neg hupdated]

/-- A note that reads as metadata is not. -/
theorem scan_metadata (slug loadedAt : Str) (scan : TopicScan) (h : Storable note)
    (hmetadata : LooksLikeMetadata note) : (scanLine slug loadedAt scan (bullet note)).notes = scan.notes := by
  unfold scanLine
  rw [strip_bullet h]
  dsimp only
  rw [tags_bullet, updated_bullet]
  split
  · rfl
  · next htags =>
      rcases hmetadata with hmetadata | hmetadata
      · exact absurd (List.isPrefixOf_iff_prefix.mpr hmetadata) htags
      · rw [if_pos (List.isPrefixOf_iff_prefix.mpr hmetadata)]

/-- Plain notes are all taken, in order. -/
theorem scan_notes (slug : Str) (hnotes : ∀ note ∈ notes, Storable note)
    (hplain : ∀ note ∈ notes, ¬ LooksLikeMetadata note) {scan : TopicScan}
    (hcapture : scan.capture = true) (hupdated : scan.updatedAt ≠ []) :
    ((notes.map bullet).foldl (scanLine slug loadedAt) scan).notes =
      scan.notes ++ notes.map fun note =>
        { text := note, tags := scan.tags, source := slug, createdAt := scan.updatedAt } := by
  induction notes generalizing scan with
  | nil => simp
  | cons note notes ih =>
      rw [List.forall_mem_cons] at hnotes hplain
      rw [List.map_cons, List.foldl_cons, scan_note hcapture hupdated hnotes.1 hplain.1]
      refine (ih hnotes.2 hplain.2 ?_ ?_).trans ?_
      · exact hcapture
      · exact hupdated
      · rw [List.append_assoc]
        rfl

/-- No line adds more than one note. -/
theorem scanLine_length (slug loadedAt : Str) (scan : TopicScan) (line : Str) :
    (scanLine slug loadedAt scan line).notes.length ≤ scan.notes.length + 1 := by
  unfold scanLine
  dsimp only
  split
  · exact Nat.le_succ _
  split
  · exact Nat.le_succ _
  split
  · exact Nat.le_succ _
  split
  · rw [List.length_append]
    exact Nat.le_refl _
  · exact Nat.le_succ _

theorem scan_length (slug loadedAt : Str) (lines : List Str) (scan : TopicScan) :
    (lines.foldl (scanLine slug loadedAt) scan).notes.length ≤ scan.notes.length + lines.length := by
  induction lines generalizing scan with
  | nil => exact Nat.le_refl _
  | cons line lines ih =>
      have hrest := ih (scanLine slug loadedAt scan line)
      have hline := scanLine_length slug loadedAt scan line
      rw [List.foldl_cons, List.length_cons]
      omega

/-- With metadata among them, fewer notes come back than were written. -/
theorem scan_short (slug loadedAt : Str) (hnotes : ∀ note ∈ notes, Storable note) (hnote : note ∈ notes)
    (hmetadata : LooksLikeMetadata note) (scan : TopicScan) :
    ((notes.map bullet).foldl (scanLine slug loadedAt) scan).notes.length <
      scan.notes.length + notes.length := by
  obtain ⟨before, after, rfl⟩ := List.append_of_mem hnote
  have hfront := scan_length slug loadedAt (before.map bullet) scan
  have hhere := scan_metadata slug loadedAt
    ((before.map bullet).foldl (scanLine slug loadedAt) scan) (hnotes note hnote) hmetadata
  have hback := scan_length slug loadedAt (after.map bullet)
    (scanLine slug loadedAt ((before.map bullet).foldl (scanLine slug loadedAt) scan) (bullet note))
  rw [hhere] at hback
  rw [List.map_append, List.map_cons, List.foldl_append, List.foldl_cons, List.length_append,
    List.length_cons]
  rw [List.length_map] at hfront hback
  omega

/-- What was written comes back exactly when no note reads as metadata. -/
theorem roundTrips_iff (topic : DurableTopic) (now : Timestamp) (loadedAt : Str)
    (hnotes : ∀ note ∈ notes, Storable note) :
    RoundTrips topic now loadedAt notes ↔ ∀ note ∈ notes, ¬ LooksLikeMetadata note := by
  have hload : loadTopicNotes topic.slug loadedAt (some (topicText topic now notes)) =
      ((notes.map bullet).foldl (scanLine topic.slug loadedAt)
        { capture := true, updatedAt := now.text, tags := topic.defaults.tags }).notes := by
    unfold loadTopicNotes
    dsimp only
    rw [readLines_topicText topic now hnotes, List.foldl_append, scan_header]
  unfold RoundTrips
  rw [hload]
  constructor
  · intro hsame note hnote hmetadata
    have hshort := scan_short topic.slug loadedAt hnotes hnote hmetadata
      { capture := true, updatedAt := now.text, tags := topic.defaults.tags }
    rw [hsame, List.length_map, List.length_nil] at hshort
    omega
  · intro hplain
    rw [scan_notes topic.slug hnotes hplain rfl now.nonempty]
    rfl

end Layered
end CodeCub

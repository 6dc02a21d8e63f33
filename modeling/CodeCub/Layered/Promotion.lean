import CodeCub.Python.JsonText
import CodeCub.Python.JsonEq
import CodeCub.Layered.DurableTopics

/-!
# Promotion of durable notes

`promote` rewrites the index and every topic of it from what it could read back.  The key
of a note's subject is any function.
-/

namespace CodeCub
namespace Layered

open Python

/-! ## The index -/

def indexEntry (topic : IndexTopic) : List Str :=
  ["- [".toList ++ topic.topic ++ "](topics/".toList ++ topic.topic ++ ".md): ".toList ++
      topic.title,
    "  - summary: ".toList ++ topic.summary,
    "  - tags: ".toList ++ List.intercalate ", ".toList topic.tags]

/-- `_write_index`: the text of the index. -/
def indexText (topics : List IndexTopic) : Str :=
  writeLines (["# Durable Memory Index".toList, []] ++ topics.flatMap indexEntry)

/-- `\s*(.+)` at the end of a pattern, on a line without blanks around it. -/
def matchRest (text : Str) : Option Str :=
  if text.dropWhile isSpace = [] then none else some (text.dropWhile isSpace)

/-- `re.match(r"- \[([^\]]+)\]\([^)]+\):\s*(.+)", line)`, its two groups. -/
def matchTopic (line : Str) : Option (Str × Str) :=
  if "- [".toList.isPrefixOf line then
    let slug := (line.drop 3).takeWhile (· ≠ ']')
    let link := (line.drop 3).dropWhile (· ≠ ']')
    let target := (link.drop 2).takeWhile (· ≠ ')')
    let title := (link.drop 2).dropWhile (· ≠ ')')
    if slug ≠ [] ∧ "](".toList.isPrefixOf link ∧ target ≠ [] ∧ "):".toList.isPrefixOf title then
      (matchRest (title.drop 2)).map fun rest => (slug, rest)
    else none
  else none

/-- `re.match(label + r"\s*(.+)", line)`, its group. -/
def matchField (label line : Str) : Option Str :=
  if label.isPrefixOf line then matchRest (line.drop label.length) else none

/-- One line of the index; `topics` stands newest first, with `current` at its head. -/
def scanIndexLine (topics : List IndexTopic) (raw : Str) : List IndexTopic :=
  let line := stripList isSpace raw
  match matchTopic line with
  | some (slug, title) =>
      { topic := stripList isSpace slug, title := stripList isSpace title, summary := [],
        tags := [] } :: topics
  | none =>
      match topics with
      | [] => []
      | current :: older =>
          match matchField "- summary:".toList line with
          | some summary => { current with summary := stripList isSpace summary } :: older
          | none =>
              match matchField "- tags:".toList line with
              | some tags => { current with tags := commaTags tags } :: older
              | none => current :: older

/-- `load_index`; `index` is `none` where there is no file. -/
def loadIndex (index : Option Str) : List IndexTopic :=
  match index with
  | none => []
  | some text => ((readLines text).foldl scanIndexLine []).reverse

/-! ## `promote` -/

structure DurableMemoryStore where
  index : Option Str := none
  files : Str → Option Str := fun _ => none

/-- The variables of the loop over the promotions. -/
structure Promoting where
  topics : List (Str × IndexTopic)
  notes : List (Str × List Str)
  results : List Str := []
  superseded : List Str := []

/-- `d.setdefault(key, value)`. -/
def setdefault {V : Type} (key : Str) (value : V) (d : List (Str × V)) : List (Str × V) :=
  if key ∈ d.map Prod.fst then d else d ++ [(key, value)]

/-- Replace the first note that `same` takes, and say which it was. -/
def replaceSubject (same : Str → Bool) (text : Str) : List Str → Option (Str × List Str)
  | [] => none
  | old :: rest =>
      if same old then some (old, text :: rest)
      else (replaceSubject same text rest).map fun found => (found.1, old :: found.2)

def supersededReport (topic : DurableTopic) (old new : Str) : Str :=
  topic.slug ++ ": ".toList ++ old ++ " -> ".toList ++ new

/-- One promotion. -/
def promoteOne (subjectKey : Str → Option Str) (state : Promoting)
    (promotion : DurableTopic × Str) : Promoting :=
  let slug := promotion.1.slug
  let text := promotion.2
  let topics := setdefault slug promotion.1.defaults state.topics
  let notes := setdefault slug [] state.notes
  let existing := (notes.lookup slug).getD []
  if text ∈ existing then { state with topics := topics, notes := notes }
  else
    let results := state.results ++ [slug ++ ": ".toList ++ text]
    match (subjectKey text).bind fun subject =>
        replaceSubject (fun old => subjectKey old == some subject) text existing with
    | some (old, updated) =>
        { topics := topics, notes := assign slug updated notes, results := results
          superseded := state.superseded ++ [supersededReport promotion.1 old text] }
    | none =>
        { topics := topics, notes := assign slug (existing ++ [text]) notes, results := results
          superseded := state.superseded }

/-- `DURABLE_TOPIC_DEFAULTS[slug]`, `none` for its `KeyError`. -/
def ofSlug (slug : Str) : Option DurableTopic :=
  [.projectConventions, .keyDecisions, .dependencyFacts, .userPreferences].find?
    fun topic : DurableTopic => topic.slug = slug

/-- Write topic after topic; the flag says that none raised. -/
def writeTopics (now : Timestamp) (files : Str → Option Str) :
    List (Str × List Str) → (Str → Option Str) × Bool
  | [] => (files, true)
  | (slug, notes) :: rest =>
      match ofSlug slug with
      | none => (files, false)
      | some topic =>
          writeTopics now (Function.update files slug (some (topicText topic now notes))) rest

/-- The store afterwards and `(results, superseded)`, or `none` for a `KeyError`. -/
structure Promoted where
  store : DurableMemoryStore
  answer : Option (List Str × List Str)

def slugOrder (a b : Str × IndexTopic) : Bool := decide (a.1 ≤ b.1)

/-- What `promote` reads before its loop. -/
def startPromoting (now : Timestamp) (store : DurableMemoryStore) : Promoting :=
  let topics := dict ((loadIndex store.index).map fun topic => (topic.topic, topic))
  { topics := topics
    notes := topics.map fun entry =>
      (entry.1, (loadTopicNotes entry.1 now.text (store.files entry.1)).map LoadedNote.text) }

/-- `promote`, at the time `now`. -/
def promote (subjectKey : Str → Option Str) (now : Timestamp) (store : DurableMemoryStore)
    (promotions : List (DurableTopic × Str)) : Promoted :=
  if promotions = [] then { store := store, answer := some ([], []) }
  else
    let state := promotions.foldl (promoteOne subjectKey) (startPromoting now store)
    let written := writeTopics now store.files state.notes
    { store :=
        { index := some (indexText ((state.topics.mergeSort slugOrder).map Prod.snd))
          files := written.1 }
      answer := if written.2 then some (state.results, state.superseded) else none }

/-! ## Reading the index back -/

theorem scan_indexEntry (topic : DurableTopic) (topics : List IndexTopic) :
    (indexEntry topic.defaults).foldl scanIndexLine topics = topic.defaults :: topics := by
  cases topic <;> rfl

theorem scan_indexEntries (topics : List DurableTopic) (older : List IndexTopic) :
    ((topics.map DurableTopic.defaults).flatMap indexEntry).foldl scanIndexLine older =
      (topics.map DurableTopic.defaults).reverse ++ older := by
  induction topics generalizing older with
  | nil => rfl
  | cons topic topics ih =>
      rw [List.map_cons, List.flatMap_cons, List.foldl_append, scan_indexEntry, ih,
        List.reverse_cons, List.append_assoc]
      rfl

theorem indexEntry_oneLine (topic : DurableTopic) :
    ∀ line ∈ indexEntry topic.defaults, ∀ c ∈ line, isLineBreak c = false := by
  cases topic <;> decide

example : (indexEntry DurableTopic.keyDecisions.defaults).length = 3 := by decide +kernel

theorem indexEntry_last (topic : DurableTopic) :
    ∃ front last, indexEntry topic.defaults = front ++ [last] ∧
      ∃ init c, last = init ++ [c] ∧ isSpace c = false := by
  refine ⟨(indexEntry topic.defaults).take 2, _, (List.take_append_drop 2 _).symm, ?_⟩
  cases topic with
  | projectConventions => exact ⟨"  - tags: conventio".toList, 'n', rfl, rfl⟩
  | keyDecisions => exact ⟨"  - tags: decisio".toList, 'n', rfl, rfl⟩
  | dependencyFacts => exact ⟨"  - tags: dependenc".toList, 'y', rfl, rfl⟩
  | userPreferences => exact ⟨"  - tags: preferenc".toList, 'e', rfl, rfl⟩

/-- The written index is read back. -/
theorem loadIndex_indexText {topics : List DurableTopic} (hne : topics ≠ []) :
    loadIndex (some (indexText (topics.map DurableTopic.defaults))) =
      topics.map DurableTopic.defaults := by
  have hlines : ∀ line ∈ ["# Durable Memory Index".toList, []] ++
      (topics.map DurableTopic.defaults).flatMap indexEntry,
      ∀ c ∈ line, isLineBreak c = false := by
    intro line hline
    rcases List.mem_append.mp hline with hline | hline
    · exact (by decide : ∀ other ∈ ["# Durable Memory Index".toList, []],
        ∀ c ∈ other, isLineBreak c = false) line hline
    · obtain ⟨entry, hentry, hline⟩ := List.mem_flatMap.mp hline
      obtain ⟨topic, -, rfl⟩ := List.mem_map.mp hentry
      exact indexEntry_oneLine topic line hline
  have hread : readLines (indexText (topics.map DurableTopic.defaults)) =
      ["# Durable Memory Index".toList, []] ++
        (topics.map DurableTopic.defaults).flatMap indexEntry := by
    unfold indexText
    obtain ⟨init, topic, rfl⟩ := (List.eq_nil_or_concat' topics).resolve_left hne
    obtain ⟨front, last, hentry, hlast⟩ := indexEntry_last topic
    rw [List.map_append, List.map_singleton, List.flatMap_append, List.flatMap_singleton, hentry,
      ← List.append_assoc, ← List.append_assoc] at hlines ⊢
    exact readLines_writeLines hlines hlast
  unfold loadIndex
  dsimp only
  rw [hread, List.foldl_append, show ["# Durable Memory Index".toList, []].foldl scanIndexLine [] =
    [] from rfl, scan_indexEntries, List.append_nil, List.reverse_reverse]

/-! ## What a promotion keeps -/

/-- A note that comes back. -/
structure Plain (note : Str) : Prop extends Storable note where
  plain : ¬ LooksLikeMetadata note

/-- An entry of the dictionary of topics. -/
def topicEntry (topic : DurableTopic) : Str × IndexTopic := (topic.slug, topic.defaults)

/-- Both dictionaries have the slugs of `topics` as their keys, and every note is plain. -/
structure Tidy (topics : List DurableTopic) (state : Promoting) : Prop where
  nodup : topics.Nodup
  entries : state.topics = topics.map topicEntry
  keys : state.notes.map Prod.fst = topics.map DurableTopic.slug
  notes : ∀ entry ∈ state.notes, ∀ note ∈ entry.2, Plain note

/-- The old note gave way to a promoted one with its subject, and this was reported. -/
def Replaced (subjectKey : Str → Option Str) (promotions : List (DurableTopic × Str))
    (superseded : List Str) (topic : DurableTopic) (old : Str) : Prop :=
  ∃ new, (topic, new) ∈ promotions ∧ subjectKey new ≠ none ∧ subjectKey old = subjectKey new ∧
    supersededReport topic old new ∈ superseded

/-- Every note is there afterwards or was replaced. -/
def KeptIn (subjectKey : Str → Option Str) (promotions : List (DurableTopic × Str))
    (superseded : List Str) (before after : List (Str × List Str)) : Prop :=
  ∀ topic : DurableTopic, ∀ notes, (topic.slug, notes) ∈ before →
    ∃ notes', (topic.slug, notes') ∈ after ∧
      ∀ old ∈ notes, old ∈ notes' ∨ Replaced subjectKey promotions superseded topic old

section Loop

variable {subjectKey : Str → Option Str} {topics : List DurableTopic} {state : Promoting}
  {promotion : DurableTopic × Str}

theorem lookup_of_mem {V : Type} {d : List (Str × V)} {key : Str} {value : V}
    (hnodup : (d.map Prod.fst).Nodup) (h : (key, value) ∈ d) : d.lookup key = some value := by
  induction d with
  | nil => cases h
  | cons entry rest ih =>
      rw [List.map_cons, List.nodup_cons] at hnodup
      rcases List.mem_cons.mp h with rfl | h
      · rw [List.lookup_cons_self]
      · have hne : key ≠ entry.1 := by
          rintro rfl
          exact hnodup.1 (List.mem_map.mpr ⟨_, h, rfl⟩)
        rw [List.lookup_cons, beq_false_of_ne hne]
        exact ih hnodup.2 h

theorem mem_setdefault {V : Type} {d : List (Str × V)} {key : Str} {value : V} {entry : Str × V}
    (h : entry ∈ d) : entry ∈ setdefault key value d := by
  unfold setdefault
  split
  · exact h
  · exact List.mem_append_left _ h

theorem of_mem_setdefault {V : Type} {d : List (Str × V)} {key : Str} {value : V}
    {entry : Str × V} (h : entry ∈ setdefault key value d) : entry ∈ d ∨ entry = (key, value) := by
  unfold setdefault at h
  split at h
  · exact Or.inl h
  · exact (List.mem_append.mp h).imp_right List.mem_singleton.mp

theorem keys_setdefault {V : Type} (key : Str) (value : V) (d : List (Str × V)) :
    (setdefault key value d).map Prod.fst =
      if key ∈ d.map Prod.fst then d.map Prod.fst else d.map Prod.fst ++ [key] := by
  unfold setdefault
  split
  · rfl
  · rw [List.map_append]
    rfl

theorem replaceSubject_eq_some {same : Str → Bool} {text old : Str} {notes updated : List Str}
    (h : replaceSubject same text notes = some (old, updated)) :
    ∃ before after, notes = before ++ old :: after ∧ updated = before ++ text :: after ∧
      same old = true := by
  induction notes generalizing updated with
  | nil => cases h
  | cons first rest ih =>
      unfold replaceSubject at h
      split at h
      · next hsame =>
          cases h
          exact ⟨[], rest, rfl, rfl, hsame⟩
      · obtain ⟨⟨old', updated'⟩, hrest, hpair⟩ := Option.map_eq_some_iff.mp h
        cases hpair
        obtain ⟨before, after, rfl, rfl, hsame⟩ := ih hrest
        exact ⟨first :: before, after, rfl, rfl, hsame⟩

/-- What one promotion does: the note is there already, or it takes the place of one with
its subject, or it goes to the end. -/
theorem promoteOne_cases (subjectKey : Str → Option Str) (state : Promoting)
    (promotion : DurableTopic × Str) {existing : List Str}
    (hexisting : ((setdefault promotion.1.slug [] state.notes).lookup promotion.1.slug).getD [] =
      existing) :
    (promotion.2 ∈ existing ∧ (promoteOne subjectKey state promotion).notes =
        setdefault promotion.1.slug [] state.notes ∧
      (promoteOne subjectKey state promotion).superseded = state.superseded) ∨
    (∃ before old after, existing = before ++ old :: after ∧ subjectKey promotion.2 ≠ none ∧
      subjectKey old = subjectKey promotion.2 ∧
      (promoteOne subjectKey state promotion).notes =
        assign promotion.1.slug (before ++ promotion.2 :: after)
          (setdefault promotion.1.slug [] state.notes) ∧
      (promoteOne subjectKey state promotion).superseded =
        state.superseded ++ [supersededReport promotion.1 old promotion.2]) ∨
    ((promoteOne subjectKey state promotion).notes =
        assign promotion.1.slug (existing ++ [promotion.2])
          (setdefault promotion.1.slug [] state.notes) ∧
      (promoteOne subjectKey state promotion).superseded = state.superseded) := by
  unfold promoteOne
  dsimp only
  rw [hexisting]
  split
  · next hmem => exact Or.inl ⟨hmem, rfl, rfl⟩
  · split
    · next old updated hreplaced =>
        obtain ⟨subject, hsubject, hreplaced⟩ := Option.bind_eq_some_iff.mp hreplaced
        obtain ⟨before, after, hsplit, rfl, hsame⟩ := replaceSubject_eq_some hreplaced
        refine Or.inr (Or.inl ⟨before, old, after, hsplit, ?_, ?_, rfl, rfl⟩)
        · rw [hsubject]
          exact Option.some_ne_none subject
        · rw [hsubject]
          exact beq_iff_eq.mp hsame
    · exact Or.inr (Or.inr ⟨rfl, rfl⟩)

theorem promoteOne_topics (subjectKey : Str → Option Str) (state : Promoting)
    (promotion : DurableTopic × Str) :
    (promoteOne subjectKey state promotion).topics =
      setdefault promotion.1.slug promotion.1.defaults state.topics := by
  unfold promoteOne
  dsimp only
  split
  · rfl
  · split
    · rfl
    · rfl

example : ofSlug "key-decisions".toList = some .keyDecisions := by decide +kernel

/-- The topics after one promotion. -/
def withTopic (topics : List DurableTopic) (topic : DurableTopic) : List DurableTopic :=
  if topic ∈ topics then topics else topics ++ [topic]

theorem slug_mem_iff {topic : DurableTopic} :
    topic.slug ∈ topics.map DurableTopic.slug ↔ topic ∈ topics := by
  rw [List.mem_map]
  constructor
  · rintro ⟨other, hother, hslug⟩
    rwa [← DurableTopic.slug_injective hslug]
  · intro h
    exact ⟨topic, h, rfl⟩

theorem nodup_withTopic (h : topics.Nodup) (topic : DurableTopic) :
    (withTopic topics topic).Nodup := by
  unfold withTopic
  split
  · exact h
  · next hnew =>
      rw [List.nodup_append]
      refine ⟨h, List.nodup_singleton topic, ?_⟩
      rintro other hother _ hlast rfl
      exact hnew (List.mem_singleton.mp hlast ▸ hother)

/-- The state in which the note is put into its topic's list. -/
theorem Tidy.setdefault (h : Tidy topics state) (topic : DurableTopic) :
    Tidy (withTopic topics topic)
      { topics := setdefault topic.slug topic.defaults state.topics
        notes := setdefault topic.slug [] state.notes } where
  nodup := nodup_withTopic h.nodup topic
  entries := by
    have hkeys : state.topics.map Prod.fst = topics.map DurableTopic.slug := by
      rw [h.entries, List.map_map]
      rfl
    unfold Layered.setdefault withTopic
    rw [hkeys]
    by_cases hmem : topic ∈ topics
    · rw [if_pos (slug_mem_iff.mpr hmem), if_pos hmem, h.entries]
    · rw [if_neg (mt slug_mem_iff.mp hmem), if_neg hmem, List.map_append, h.entries]
      rfl
  keys := by
    rw [keys_setdefault, h.keys]
    unfold withTopic
    by_cases hmem : topic ∈ topics
    · rw [if_pos (slug_mem_iff.mpr hmem), if_pos hmem]
    · rw [if_neg (mt slug_mem_iff.mp hmem), if_neg hmem, List.map_append]
      rfl
  notes := by
    intro entry hentry
    rcases of_mem_setdefault hentry with hentry | rfl
    · exact h.notes entry hentry
    · intro note hnote
      cases hnote

theorem Tidy.nodup_keys (h : Tidy topics state) : (state.notes.map Prod.fst).Nodup := by
  rw [h.keys]
  exact h.nodup.map fun _ _ => DurableTopic.slug_injective

/-- The list of a topic of the state. -/
theorem Tidy.lookup (h : Tidy topics state) {topic : DurableTopic} (hmem : topic ∈ topics) :
    (topic.slug, (state.notes.lookup topic.slug).getD []) ∈ state.notes := by
  have hkey : topic.slug ∈ state.notes.map Prod.fst := by
    rw [h.keys]
    exact slug_mem_iff.mpr hmem
  obtain ⟨⟨slug, notes⟩, hentry, rfl⟩ := List.mem_map.mp hkey
  rw [lookup_of_mem h.nodup_keys hentry]
  exact hentry

theorem mem_withTopic (topics : List DurableTopic) (topic : DurableTopic) :
    topic ∈ withTopic topics topic := by
  unfold withTopic
  split
  · next h => exact h
  · exact List.mem_append_right _ (List.mem_singleton_self topic)

theorem keys_assign_of_mem {V : Type} {d : List (Str × V)} {key : Str} (value : V)
    (h : key ∈ d.map Prod.fst) : (assign key value d).map Prod.fst = d.map Prod.fst := by
  rw [keys_assign, if_pos h]

/-- The list of the promotion's topic is replaced, the others stay. -/
theorem keptIn_assign {d : List (Str × List Str)} {topic : DurableTopic} {existing updated : List Str}
    {promotions : List (DurableTopic × Str)} {superseded : List Str}
    (hnodup : (d.map Prod.fst).Nodup) (hexisting : (topic.slug, existing) ∈ d)
    (hkept : ∀ old ∈ existing, old ∈ updated ∨ Replaced subjectKey promotions superseded topic old) :
    KeptIn subjectKey promotions superseded d (assign topic.slug updated d) := by
  intro other notes hnotes
  by_cases hsame : other = topic
  · subst hsame
    have hlookup := lookup_of_mem hnodup hnotes
    rw [lookup_of_mem hnodup hexisting] at hlookup
    cases hlookup
    exact ⟨updated, mem_assign_self _ _ _, hkept⟩
  · refine ⟨notes, mem_assign_of_ne hnotes ?_, fun old hold => Or.inl hold⟩
    exact fun hslug => hsame (DurableTopic.slug_injective hslug)

theorem keptIn_refl {promotions : List (DurableTopic × Str)} {superseded : List Str}
    (d : List (Str × List Str)) : KeptIn subjectKey promotions superseded d d :=
  fun _ notes hnotes => ⟨notes, hnotes, fun _ hold => Or.inl hold⟩

theorem Replaced.mono {promotions more : List (DurableTopic × Str)} {superseded later : List Str}
    {topic : DurableTopic} {old : Str} (h : Replaced subjectKey promotions superseded topic old)
    (hpromotions : promotions ⊆ more) (hsuperseded : superseded ⊆ later) :
    Replaced subjectKey more later topic old := by
  obtain ⟨new, hnew, hsubject, hsame, hreport⟩ := h
  exact ⟨new, hpromotions hnew, hsubject, hsame, hsuperseded hreport⟩

theorem KeptIn.trans {first others : List (DurableTopic × Str)} {superseded later : List Str}
    {before middle after : List (Str × List Str)}
    (h : KeptIn subjectKey first superseded before middle)
    (hrest : KeptIn subjectKey others later middle after) (hsuperseded : superseded ⊆ later) :
    KeptIn subjectKey (first ++ others) later before after := by
  intro topic notes hnotes
  obtain ⟨between, hbetween, hkept⟩ := h topic notes hnotes
  obtain ⟨last, hlast, hkept'⟩ := hrest topic between hbetween
  refine ⟨last, hlast, fun old hold => ?_⟩
  rcases hkept old hold with hthere | hreplaced
  · refine (hkept' old hthere).imp_right fun hreplaced => ?_
    exact hreplaced.mono (List.subset_append_right first others) (List.Subset.refl later)
  · exact Or.inr (hreplaced.mono (List.subset_append_left first others) hsuperseded)

theorem Tidy.assign (h : Tidy topics state) {topic : DurableTopic} (hmem : topic ∈ topics)
    {updated : List Str} (hupdated : ∀ note ∈ updated, Plain note) {next : Promoting}
    (htopics : next.topics = state.topics)
    (hnotes : next.notes = assign topic.slug updated state.notes) : Tidy topics next where
  nodup := h.nodup
  entries := htopics.trans h.entries
  keys := by
    have hkey : topic.slug ∈ state.notes.map Prod.fst := by
      rw [h.keys]
      exact slug_mem_iff.mpr hmem
    rw [hnotes, keys_assign_of_mem updated hkey, h.keys]
  notes := by
    intro entry hentry
    rw [hnotes] at hentry
    rcases of_mem_assign hentry with rfl | hentry
    · exact hupdated
    · exact h.notes entry hentry

/-- One promotion of a plain note. -/
theorem promoteOne_spec (h : Tidy topics state) (hplain : Plain promotion.2) :
    Tidy (withTopic topics promotion.1) (promoteOne subjectKey state promotion) ∧
      state.superseded ⊆ (promoteOne subjectKey state promotion).superseded ∧
      KeptIn subjectKey [promotion] (promoteOne subjectKey state promotion).superseded state.notes
        (promoteOne subjectKey state promotion).notes := by
  have hbase := h.setdefault promotion.1
  have hmem := mem_withTopic topics promotion.1
  have hentry := hbase.lookup hmem
  have htopics := promoteOne_topics subjectKey state promotion
  have hstart : KeptIn subjectKey [] (promoteOne subjectKey state promotion).superseded state.notes
      (setdefault promotion.1.slug [] state.notes) :=
    fun _ notes hnotes => ⟨notes, mem_setdefault hnotes, fun _ hold => Or.inl hold⟩
  have hexisting : ∀ note ∈ ((setdefault promotion.1.slug [] state.notes).lookup
      promotion.1.slug).getD [], Plain note := hbase.notes _ hentry
  rcases promoteOne_cases subjectKey state promotion rfl with
    ⟨-, hnotes, hsame⟩ | ⟨before, old, after, hsplit, hsubject, hold, hnotes, hreport⟩ |
      ⟨hnotes, hsame⟩
  · refine ⟨⟨hbase.nodup, htopics.trans hbase.entries, ?_, ?_⟩, hsame.symm ▸ List.Subset.refl _, ?_⟩
    · rw [hnotes]
      exact hbase.keys
    · rw [hnotes]
      exact hbase.notes
    · rw [hnotes]
      exact hstart.trans (keptIn_refl _) (List.Subset.refl _)
  · rw [hsplit] at hentry hexisting
    refine ⟨hbase.assign hmem ?_ htopics hnotes, hreport.symm ▸ List.subset_append_left _ _, ?_⟩
    · intro note hnote
      rcases List.mem_append.mp hnote with hnote | hnote
      · exact hexisting note (List.mem_append_left _ hnote)
      rcases List.mem_cons.mp hnote with rfl | hnote
      · exact hplain
      · exact hexisting note (List.mem_append_right _ (List.mem_cons_of_mem _ hnote))
    · rw [hnotes]
      refine hstart.trans (keptIn_assign hbase.nodup_keys hentry ?_) (List.Subset.refl _)
      intro note hnote
      rcases List.mem_append.mp hnote with hnote | hnote
      · exact Or.inl (List.mem_append_left _ hnote)
      rcases List.mem_cons.mp hnote with rfl | hnote
      · refine Or.inr ⟨promotion.2, List.mem_singleton_self _, hsubject, hold, ?_⟩
        rw [hreport]
        exact List.mem_append_right _ (List.mem_singleton_self _)
      · exact Or.inl (List.mem_append_right _ (List.mem_cons_of_mem _ hnote))
  · refine ⟨hbase.assign hmem ?_ htopics hnotes, hsame.symm ▸ List.Subset.refl _, ?_⟩
    · intro note hnote
      rcases List.mem_append.mp hnote with hnote | hnote
      · exact hexisting note hnote
      · rw [List.mem_singleton.mp hnote]
        exact hplain
    · rw [hnotes]
      refine hstart.trans (keptIn_assign hbase.nodup_keys hentry ?_) (List.Subset.refl _)
      exact fun note hnote => Or.inl (List.mem_append_left _ hnote)

/-- The loop over plain notes. -/
theorem promotions_spec {promotions : List (DurableTopic × Str)} (h : Tidy topics state)
    (hplain : ∀ promotion ∈ promotions, Plain promotion.2) :
    Tidy (promotions.foldl (fun known promotion => withTopic known promotion.1) topics)
        (promotions.foldl (promoteOne subjectKey) state) ∧
      state.superseded ⊆ (promotions.foldl (promoteOne subjectKey) state).superseded ∧
      KeptIn subjectKey promotions (promotions.foldl (promoteOne subjectKey) state).superseded
        state.notes (promotions.foldl (promoteOne subjectKey) state).notes := by
  induction promotions generalizing topics state with
  | nil => exact ⟨h, List.Subset.refl _, keptIn_refl _⟩
  | cons promotion promotions ih =>
      rw [List.forall_mem_cons] at hplain
      obtain ⟨htidy, hsuperseded, hkept⟩ := @promoteOne_spec subjectKey topics state promotion h hplain.1
      obtain ⟨htidy', hsuperseded', hkept'⟩ := ih htidy hplain.2
      exact ⟨htidy', List.Subset.trans hsuperseded hsuperseded',
        hkept.trans hkept' hsuperseded'⟩

end Loop

/-! ## The files -/

theorem ofSlug_slug (topic : DurableTopic) : ofSlug topic.slug = some topic := by
  cases topic <;> rfl

/-- Every topic of the dictionary is written, and no other file. -/
theorem writeTopics_spec (now : Timestamp) {topics : List DurableTopic}
    {notes : List (Str × List Str)} (hkeys : notes.map Prod.fst = topics.map DurableTopic.slug)
    (hnodup : topics.Nodup) (files : Str → Option Str) :
    (writeTopics now files notes).2 = true ∧
      (∀ topic texts, (topic.slug, texts) ∈ notes →
        (writeTopics now files notes).1 topic.slug = some (topicText topic now texts)) ∧
      ∀ topic : DurableTopic, topic ∉ topics →
        (writeTopics now files notes).1 topic.slug = files topic.slug := by
  induction notes generalizing topics files with
  | nil =>
      refine ⟨rfl, ?_, fun _ _ => rfl⟩
      intro topic texts htexts
      cases htexts
  | cons entry rest ih =>
      obtain ⟨slug, texts⟩ := entry
      cases topics with
      | nil => cases hkeys
      | cons first topics =>
          obtain ⟨hslug, hrest⟩ := List.cons.inj hkeys
          rw [List.nodup_cons] at hnodup
          change slug = first.slug at hslug
          subst hslug
          have hwrite : writeTopics now files ((first.slug, texts) :: rest) = writeTopics now
              (Function.update files first.slug (some (topicText first now texts))) rest := by
            rw [writeTopics, ofSlug_slug]
          obtain ⟨hflag, hfiles, hothers⟩ := ih hrest hnodup.2
            (Function.update files first.slug (some (topicText first now texts)))
          rw [hwrite]
          refine ⟨hflag, ?_, ?_⟩
          · intro topic texts' htexts
            rcases List.mem_cons.mp htexts with hhere | htexts
            · obtain ⟨hsame, rfl⟩ := Prod.mk.inj hhere
              rw [DurableTopic.slug_injective hsame, hothers first hnodup.1,
                Function.update_self]
            · exact hfiles topic texts' htexts
          · intro topic hnot
            rw [List.mem_cons, not_or] at hnot
            rw [hothers topic hnot.2, Function.update_of_ne]
            exact fun hsame => hnot.1 (DurableTopic.slug_injective hsame)

/-! ## Runs -/

/-- The topic's file was written with these notes. -/
def Holds (store : DurableMemoryStore) (topic : DurableTopic) (notes : List Str) : Prop :=
  (∀ note ∈ notes, Storable note) ∧
    ∃ now, store.files topic.slug = some (topicText topic now notes)

/-- The index lists `topics`, and these are the topics that have a file. -/
structure Lists (topics : List DurableTopic) (store : DurableMemoryStore) : Prop where
  nodup : topics.Nodup
  index : store.index =
    if topics = [] then none else some (indexText (topics.map DurableTopic.defaults))
  present : ∀ topic ∈ topics, ∃ notes, Holds store topic notes ∧ ∀ note ∈ notes, Plain note
  absent : ∀ topic ∉ topics, store.files topic.slug = none

/-- The store as promotions of plain notes leave it. -/
def Sound (store : DurableMemoryStore) : Prop := ∃ topics, Lists topics store

theorem sound_empty : Sound {} := by
  refine ⟨[], List.nodup_nil, rfl, ?_, fun _ _ => rfl⟩
  intro topic htopic
  cases htopic

section Runs

variable {subjectKey : Str → Option Str} {now : Timestamp} {store : DurableMemoryStore}
  {topics : List DurableTopic}

/-- The text of a file tells what it was written with. -/
theorem Holds.unique {topic : DurableTopic} {notes others : List Str} (h : Holds store topic notes)
    (h' : Holds store topic others) : notes = others := by
  obtain ⟨hnotes, now, hfile⟩ := h
  obtain ⟨hothers, then_, hfile'⟩ := h'
  rw [hfile] at hfile'
  have hread := readLines_topicText topic now hnotes
  rw [Option.some.inj hfile', readLines_topicText topic then_ hothers] at hread
  have hbullets := (List.append_inj hread rfl).2
  have hinjective : Function.Injective bullet := fun _ _ hsame => List.append_cancel_left hsame
  exact (hinjective.list_map hbullets).symm

/-- A file of plain notes is read as it was written. -/
theorem Holds.load {topic : DurableTopic} {notes : List Str} (h : Holds store topic notes)
    (hplain : ∀ note ∈ notes, Plain note) (loadedAt : Str) :
    (loadTopicNotes topic.slug loadedAt (store.files topic.slug)).map LoadedNote.text = notes := by
  obtain ⟨hnotes, written, hfile⟩ := h
  have hround : RoundTrips topic written loadedAt notes :=
    (roundTrips_iff topic written loadedAt hnotes).mpr fun note hnote => (hplain note hnote).plain
  rw [hfile, hround, List.map_map]
  exact List.map_id _

theorem Lists.loadIndex (h : Lists topics store) :
    loadIndex store.index = topics.map DurableTopic.defaults := by
  rw [h.index]
  by_cases hne : topics = []
  · rw [if_pos hne, hne]
    rfl
  · rw [if_neg hne]
    exact loadIndex_indexText hne

theorem Lists.mem_of_holds (h : Lists topics store) {topic : DurableTopic} {notes : List Str}
    (hholds : Holds store topic notes) : topic ∈ topics := by
  by_contra hnot
  obtain ⟨-, now, hfile⟩ := hholds
  rw [h.absent topic hnot] at hfile
  cases hfile

/-- `promote` starts from the topics of the store and what their files were written with. -/
theorem Lists.start (h : Lists topics store) (now : Timestamp) :
    Tidy topics (startPromoting now store) ∧
      ∀ topic notes, Holds store topic notes →
        (topic.slug, notes) ∈ (startPromoting now store).notes := by
  have hentries : (startPromoting now store).topics = topics.map topicEntry := by
    unfold startPromoting
    dsimp only
    rw [h.loadIndex, List.map_map]
    apply dict_of_nodup
    rw [List.map_map]
    exact h.nodup.map fun _ _ => DurableTopic.slug_injective
  have hnotes : (startPromoting now store).notes = topics.map fun topic => (topic.slug,
      (loadTopicNotes topic.slug now.text (store.files topic.slug)).map LoadedNote.text) := by
    show (startPromoting now store).topics.map _ = _
    rw [hentries, List.map_map]
    rfl
  have hloaded : ∀ topic notes, Holds store topic notes →
      (loadTopicNotes topic.slug now.text (store.files topic.slug)).map LoadedNote.text = notes ∧
        ∀ note ∈ notes, Plain note := by
    intro topic notes hholds
    obtain ⟨others, hothers, hplain⟩ := h.present topic (h.mem_of_holds hholds)
    rw [hholds.unique hothers]
    exact ⟨hothers.load hplain now.text, hplain⟩
  refine ⟨⟨h.nodup, hentries, ?_, ?_⟩, ?_⟩
  · rw [hnotes, List.map_map]
    rfl
  · intro entry hentry
    rw [hnotes] at hentry
    obtain ⟨topic, htopic, rfl⟩ := List.mem_map.mp hentry
    obtain ⟨notes, hholds, -⟩ := h.present topic htopic
    dsimp only
    rw [(hloaded topic notes hholds).1]
    exact (hloaded topic notes hholds).2
  · intro topic notes hholds
    rw [hnotes]
    refine List.mem_map.mpr ⟨topic, h.mem_of_holds hholds, ?_⟩
    rw [(hloaded topic notes hholds).1]

/-- A promotion of `promotions` loses nothing: every note of every topic is there
afterwards or was replaced. -/
def Keeps (subjectKey : Str → Option Str) (promotions : List (DurableTopic × Str))
    (store : DurableMemoryStore) (promoted : Promoted) : Prop :=
  ∃ results superseded, promoted.answer = some (results, superseded) ∧
    ∀ topic notes, Holds store topic notes →
      ∃ notes', Holds promoted.store topic notes' ∧
        ∀ old ∈ notes, old ∈ notes' ∨ Replaced subjectKey promotions superseded topic old

/-- The topics after all the promotions. -/
def withTopics (topics : List DurableTopic) (promotions : List (DurableTopic × Str)) :
    List DurableTopic :=
  promotions.foldl (fun known promotion => withTopic known promotion.1) topics

theorem subset_withTopics (promotions : List (DurableTopic × Str)) (topics : List DurableTopic) :
    topics ⊆ withTopics topics promotions := by
  induction promotions generalizing topics with
  | nil => exact List.Subset.refl topics
  | cons promotion promotions ih =>
      refine List.Subset.trans ?_ (ih (withTopic topics promotion.1))
      unfold withTopic
      split
      · exact List.Subset.refl topics
      · exact List.subset_append_left topics _

theorem withTopics_ne_nil {promotions : List (DurableTopic × Str)} (hne : promotions ≠ []) :
    withTopics topics promotions ≠ [] := by
  cases promotions with
  | nil => exact absurd rfl hne
  | cons promotion promotions =>
      exact List.ne_nil_of_mem (subset_withTopics promotions (withTopic topics promotion.1)
        (mem_withTopic topics promotion.1))

/-- A promotion of plain notes keeps a sound store sound and loses nothing. -/
theorem promote_spec (hsound : Sound store) {promotions : List (DurableTopic × Str)}
    (hplain : ∀ promotion ∈ promotions, Plain promotion.2) :
    Sound (promote subjectKey now store promotions).store ∧
      Keeps subjectKey promotions store (promote subjectKey now store promotions) := by
  by_cases hne : promotions = []
  · have hnothing : promote subjectKey now store promotions =
        { store := store, answer := some ([], []) } := if_pos hne
    rw [hnothing]
    refine ⟨hsound, [], [], rfl, fun topic notes hholds => ⟨notes, hholds, ?_⟩⟩
    exact fun old hold => Or.inl hold
  obtain ⟨topics, hlists⟩ := hsound
  obtain ⟨hstart, hread⟩ := hlists.start now
  obtain ⟨htidy, -, hkept⟩ := @promotions_spec subjectKey topics _ promotions hstart hplain
  change Tidy (withTopics topics promotions) _ at htidy
  obtain ⟨hflag, hfiles, hothers⟩ := writeTopics_spec now htidy.keys htidy.nodup store.files
  have hwritten : ∀ topic notes, (topic.slug, notes) ∈
      (promotions.foldl (promoteOne subjectKey) (startPromoting now store)).notes →
        Holds (promote subjectKey now store promotions).store topic notes := by
    intro topic notes hnotes
    refine ⟨fun note hnote => (htidy.notes _ hnotes note hnote).toStorable, now, ?_⟩
    unfold promote
    rw [if_neg hne]
    exact hfiles topic notes hnotes
  constructor
  · let order : DurableTopic → DurableTopic → Bool := fun a b =>
      slugOrder (topicEntry a) (topicEntry b)
    have hsorted : ((promotions.foldl (promoteOne subjectKey)
        (startPromoting now store)).topics.mergeSort slugOrder).map Prod.snd =
          ((withTopics topics promotions).mergeSort order).map DurableTopic.defaults := by
      have hmap : ((withTopics topics promotions).mergeSort order).map topicEntry =
          ((withTopics topics promotions).map topicEntry).mergeSort slugOrder :=
        List.map_mergeSort fun _ _ _ _ => rfl
      rw [htidy.entries, ← hmap, List.map_map]
      rfl
    have hperm := List.mergeSort_perm (withTopics topics promotions) order
    refine ⟨(withTopics topics promotions).mergeSort order, hperm.nodup_iff.mpr htidy.nodup,
      ?_, ?_, ?_⟩
    · rw [if_neg fun hnil => withTopics_ne_nil hne (hnil ▸ hperm).nil_eq.symm, ← hsorted]
      unfold promote
      rw [if_neg hne]
    · intro topic htopic
      have hentry := htidy.lookup (hperm.mem_iff.mp htopic)
      exact ⟨_, hwritten topic _ hentry, htidy.notes _ hentry⟩
    · intro topic htopic
      rw [hperm.mem_iff] at htopic
      have hfile := hothers topic htopic
      rw [hlists.absent topic fun hmem => htopic (subset_withTopics promotions topics hmem)]
        at hfile
      unfold promote
      rw [if_neg hne]
      exact hfile
  · refine ⟨(promotions.foldl (promoteOne subjectKey) (startPromoting now store)).results,
      (promotions.foldl (promoteOne subjectKey) (startPromoting now store)).superseded, ?_,
      fun topic notes hholds => ?_⟩
    · unfold promote
      rw [if_neg hne]
      exact if_pos hflag
    · obtain ⟨notes', hnotes', hall⟩ := hkept topic notes (hread topic notes hholds)
      exact ⟨notes', hwritten topic notes' hnotes', hall⟩

/-- Promotions one after the other, each at its time. -/
def promoteAll (subjectKey : Str → Option Str) (store : DurableMemoryStore)
    (calls : List (Timestamp × List (DurableTopic × Str))) : DurableMemoryStore :=
  calls.foldl (fun store call => (promote subjectKey call.1 store call.2).store) store

theorem sound_promoteAll (hsound : Sound store)
    {calls : List (Timestamp × List (DurableTopic × Str))}
    (hplain : ∀ call ∈ calls, ∀ promotion ∈ call.2, Plain promotion.2) :
    Sound (promoteAll subjectKey store calls) := by
  induction calls generalizing store with
  | nil => exact hsound
  | cons call calls ih =>
      rw [List.forall_mem_cons] at hplain
      exact ih (promote_spec hsound hplain.1).1 hplain.2

end Runs

example : loadIndex (some (indexText [])) = [] := by decide +kernel

def springMorning : Timestamp where
  text := "2026-04-09T08:00:00+00:00".toList
  nonempty := by decide
  printed := by decide

def toolNote : Str := "Use uv for installs".toList

/-- A decision about release tags, which starts like the line of tags. -/
def tagNote : Str := "tags: release tags are signed".toList

theorem storable_toolNote : Storable toolNote where
  nonempty := by decide
  stripped := by decide
  oneLine := by decide

theorem storable_tagNote : Storable tagNote where
  nonempty := by decide
  stripped := by decide
  oneLine := by decide

end Layered
end CodeCub

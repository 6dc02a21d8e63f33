import CodeCub.Layered.State

/-!
# Normalising a normalised state

The texts of a state are clipped each time it is normalised, and a clipped text is longer
than the limit it was clipped to.  Everything else settles the first time, but for a recent
file whose canonical path is blank.
-/

namespace CodeCub
namespace Layered

open Python
open Models (Fields truthy getOr)

variable {F : Type} {host : Host F}

def Stripped (text : Str) : Prop := stripList isSpace text = text

theorem stripped_text (host : Host F) (value : Json Str F) : Stripped (host.text value) :=
  stripList_stripList isSpace (host.str value)

theorem stripped_now (host : Host F) : Stripped host.now := host.now_stripped

theorem Stripped.clip {text : Str} {limit : Nat} (h : Stripped text) (hlimit : 0 < limit) :
    Stripped (clip text limit) :=
  strip_clip hlimit h

theorem text_str (host : Host F) {text : Str} (h : Stripped text) :
    host.text (.str text) = text := by
  unfold Host.text
  rw [host.str_str, h]

theorem canonicalizePath_idem (host : Host F) (path : Str) :
    host.canonicalizePath (host.canonicalizePath path) = host.canonicalizePath path := by
  unfold Host.canonicalizePath
  cases hinside : host.inside path with
  | none =>
      show (host.inside (host.posix path)).getD (host.posix (host.posix path)) = host.posix path
      rw [host.inside_posix, hinside, host.posix_posix]
      rfl
  | some inner =>
      show (host.inside inner).getD (host.posix inner) = inner
      rw [host.inside_inside path inner hinside]
      rfl

/-! ## What a normalised state is like -/

structure Note.Tidy (note : Note) : Prop where
  text : Stripped note.text
  tags : note.tags.Nodup
  tag : ∀ tag ∈ note.tags, Stripped tag ∧ tag ≠ []
  source : Stripped note.source
  createdAt : Stripped note.createdAt
  kind : Stripped note.kind
  kind_ne : note.kind ≠ []

structure FileSummary.Tidy (entry : FileSummary) : Prop where
  summary : Stripped entry.summary
  summary_ne : entry.summary ≠ []
  createdAt : Stripped entry.createdAt
  createdAt_ne : entry.createdAt ≠ []
  freshness : ∀ text ∈ entry.freshness, Stripped text ∧ text ≠ []

structure Normal (host : Host F) (n : Normalized) : Prop where
  task : Stripped n.task
  canonical : ∀ path ∈ n.files, host.canonicalizePath path = path
  files : n.files.Nodup
  few : n.files.length ≤ workingFileLimit
  notes : ∀ note ∈ n.notes, note.Tidy
  fewNotes : n.notes.length ≤ episodicNoteLimit
  keys : (n.summaries.map Prod.fst).Nodup
  summaries : ∀ entry ∈ n.summaries,
    host.canonicalizePath entry.1 = entry.1 ∧ entry.1 ≠ [] ∧ entry.2.Tidy
  next : 0 ≤ n.next
  below : ∀ note ∈ n.notes, note.noteIndex < n.next

/-! ## What normalising again makes of it -/

def Note.again (host : Host F) (note : Note) : Note :=
  { note with
    text := Layered.clip note.text 500
    createdAt := if note.createdAt = [] then host.now else note.createdAt }

def FileSummary.again (entry : FileSummary) : FileSummary :=
  { entry with summary := Layered.clip entry.summary 500 }

def Normalized.again (host : Host F) (n : Normalized) : Normalized :=
  { n with
    task := Layered.clip n.task 300
    files := n.files.filter fun path => stripList isSpace path ≠ []
    notes := n.notes.map (Note.again host)
    summaries := n.summaries.map fun entry => (entry.1, entry.2.again) }

section Tags

theorem tagList_strings {tags : List Str} (hnodup : tags.Nodup)
    (htags : ∀ tag ∈ tags, Stripped tag ∧ tag ≠ []) : host.tagList (strings tags) = tags := by
  have hmap : (tags.map Json.str).map host.text = tags := by
    rw [List.map_map]
    refine (List.map_congr_left fun tag htag => ?_).trans (List.map_id tags)
    exact text_str host (htags tag htag).1
  have hkept : tags.filter (· ≠ []) = tags :=
    List.filter_eq_self.mpr fun tag htag => decide_eq_true (htags tag htag).2
  unfold Host.tagList
  rw [show ensureList (strings tags : Json Str F) = tags.map Json.str from rfl, hmap, hkept,
    dedupe_of_nodup hnodup]

theorem nodup_tagList (value : Json Str F) : (host.tagList value).Nodup := nodup_dedupe _

theorem of_mem_tagList {value : Json Str F} {tag : Str} (h : tag ∈ host.tagList value) :
    Stripped tag ∧ tag ≠ [] := by
  have hmem := List.mem_filter.mp (mem_of_mem_dedupe h)
  obtain ⟨item, -, rfl⟩ := List.mem_map.mp hmem.1
  exact ⟨stripped_text host item, of_decide_eq_true hmem.2⟩

end Tags

/-! ## Notes -/

theorem lookup_fields (note : Note) :
    (note.fields : Fields F).lookup "text".toList = some (.str note.text) ∧
      (note.fields : Fields F).lookup "tags".toList = some (strings note.tags) ∧
      (note.fields : Fields F).lookup "source".toList = some (.str note.source) ∧
      (note.fields : Fields F).lookup "created_at".toList = some (.str note.createdAt) ∧
      (note.fields : Fields F).lookup "note_index".toList = some (.int note.noteIndex) ∧
      (note.fields : Fields F).lookup "kind".toList = some (.str note.kind) :=
  ⟨rfl, rfl, rfl, rfl, rfl, rfl⟩

theorem normalizeNote_fields {note : Note} (h : note.Tidy) (index : Nat) :
    host.normalizeNote (.obj note.fields) index = some (note.again host) := by
  obtain ⟨htext, htags, hsource, hcreated, hindex, hkind⟩ := lookup_fields (F := F) note
  unfold Host.normalizeNote
  dsimp only
  rw [getOr_of_lookup htext, getOr_of_lookup htags, getOr_of_lookup hsource,
    getOr_of_lookup hcreated, getOr_of_lookup hindex, getOr_of_lookup hkind, host.int_int,
    text_str host h.text, text_str host h.source, text_str host h.createdAt,
    text_str host h.kind, tagList_strings h.tags h.tag, if_neg h.kind_ne]
  rfl

theorem tidy_normalizeNote {raw : Json Str F} {index : Nat} {note : Note}
    (h : host.normalizeNote raw index = some note) : note.Tidy ∧ note.createdAt ≠ [] := by
  have hplain : ∀ text : Str, Stripped text →
      Note.Tidy { text := Layered.clip text 500, createdAt := host.now, noteIndex := index } :=
    fun text htext =>
      { text := htext.clip (by decide)
        tags := List.nodup_nil
        tag := fun tag htag => absurd htag List.not_mem_nil
        source := rfl
        createdAt := stripped_now host
        kind := rfl
        kind_ne := List.cons_ne_nil _ _ }
  cases raw with
  | obj fields =>
      unfold Host.normalizeNote at h
      dsimp only at h
      obtain ⟨noteIndex, -, h⟩ := Option.bind_eq_some_iff.mp h
      cases h
      refine ⟨⟨(stripped_text host _).clip (by decide), nodup_tagList _,
        fun tag htag => of_mem_tagList htag, stripped_text host _, ?_, ?_, ?_⟩, ?_⟩
      · show Stripped (if _ then _ else _)
        split
        · exact stripped_now host
        · exact stripped_text host _
      · show Stripped (if _ then _ else _)
        split
        · exact rfl
        · exact stripped_text host _
      · show (if _ then _ else _) ≠ []
        split
        · exact List.cons_ne_nil _ _
        · next hne => exact hne
      · show (if _ then _ else _) ≠ []
        split
        · exact host.now_ne
        · next hne => exact hne
  | null | bool | int | float | nonFinite | str | arr =>
      cases h
      exact ⟨hplain _ (stripped_text host _), host.now_ne⟩

section MapM

variable {α β γ : Type} {f : α → Option β} {l : List α} {l' : List β}

theorem map_of_mapM {g : β → γ} {k : α → γ} (hf : ∀ a b, f a = some b → g b = k a)
    (h : l.mapM f = some l') : l'.map g = l.map k := by
  induction l generalizing l' with
  | nil =>
      rw [List.mapM_nil] at h
      obtain rfl := Option.some.inj h
      rfl
  | cons a l ih =>
      rw [List.mapM_cons] at h
      obtain ⟨b, hb, h⟩ := Option.bind_eq_some_iff.mp h
      obtain ⟨rest, hrest, h⟩ := Option.bind_eq_some_iff.mp h
      obtain rfl := Option.some.inj h
      rw [List.map_cons, List.map_cons, hf a b hb, ih hrest]

theorem forall_of_mapM {P : β → Prop} (hf : ∀ a b, f a = some b → P b)
    (h : l.mapM f = some l') : ∀ b ∈ l', P b := by
  induction l generalizing l' with
  | nil =>
      rw [List.mapM_nil] at h
      obtain rfl := Option.some.inj h
      exact fun b hb => absurd hb List.not_mem_nil
  | cons a l ih =>
      rw [List.mapM_cons] at h
      obtain ⟨b, hb, h⟩ := Option.bind_eq_some_iff.mp h
      obtain ⟨rest, hrest, h⟩ := Option.bind_eq_some_iff.mp h
      obtain rfl := Option.some.inj h
      exact List.forall_mem_cons.mpr ⟨hf a b hb, ih hrest⟩

theorem mapM_zipIdx {k : α → β} {f : β → Nat → Option γ} {g : α → γ}
    (h : ∀ a ∈ l, ∀ i, f (k a) i = some (g a)) (start : Nat) :
    ((l.map k).zipIdx start).mapM (fun raw => f raw.1 raw.2) = some (l.map g) := by
  induction l generalizing start with
  | nil => rfl
  | cons a l ih =>
      rw [List.forall_mem_cons] at h
      rw [List.map_cons, List.zipIdx_cons, List.mapM_cons, h.1, ih h.2]
      rfl

end MapM

/-! ## Normalising what is written -/

section Again

variable [FiniteFloat F] {fields : Fields F} {n : Normalized}

omit [FiniteFloat F] in
theorem working_of_written (h : Written host fields n) : WorkingIs (Host.working fields) n := by
  obtain ⟨inner, hinner, hworking⟩ := h.working
  have hsame : Host.working fields = inner := by
    unfold Host.working
    rw [getOr_of_lookup hinner]
  rw [hsame]
  exact hworking

theorem taskSummary_written (h : Written host fields n) (ht : Normal host n) :
    host.taskSummary fields = Layered.clip n.task 300 := by
  have hown := text_str host ht.task
  unfold Host.taskSummary
  rw [getOr_of_lookup (working_of_written h).task, getOr_of_lookup h.task .null,
    getOr_of_lookup h.task (.str []), hown]
  dsimp only
  split <;> rfl

omit [FiniteFloat F] in
theorem recentPaths_strings {files : List Str}
    (hcanonical : ∀ path ∈ files, host.canonicalizePath path = path) (hnodup : files.Nodup)
    (hfew : files.length ≤ workingFileLimit) :
    host.recentPaths (strings files) = files.filter fun path => stripList isSpace path ≠ [] := by
  have hkept : ((files.map Json.str).filter fun path => host.text path ≠ []) =
      (files.filter fun path => stripList isSpace path ≠ []).map Json.str := by
    rw [List.filter_map]
    congr 1
    refine List.filter_congr fun path _ => ?_
    show decide (stripList isSpace (host.str (.str path)) ≠ []) = _
    rw [host.str_str]
  have hmap : ((files.filter fun path => stripList isSpace path ≠ []).map Json.str).map
      (fun path => host.canonicalizePath (host.str path)) =
      files.filter fun path => stripList isSpace path ≠ [] := by
    rw [List.map_map]
    refine (List.map_congr_left fun path hpath => ?_).trans (List.map_id _)
    show host.canonicalizePath (host.str (.str path)) = path
    rw [host.str_str, hcanonical path (List.mem_of_mem_filter hpath)]
  unfold Host.recentPaths
  rw [show ensureList (strings files : Json Str F) = files.map Json.str from rfl, hkept, hmap,
    dedupe_of_nodup (hnodup.filter _)]
  exact lastN_of_le ((List.length_filter_le _ files).trans hfew)

theorem recentFiles_written (h : Written host fields n) (ht : Normal host n) :
    host.recentFiles fields = n.files.filter fun path => stripList isSpace path ≠ [] := by
  have hpaths := recentPaths_strings ht.canonical ht.files ht.few
  unfold Host.recentFiles
  rw [getOr_of_lookup (working_of_written h).files, getOr_of_lookup h.files .null,
    getOr_of_lookup h.files (.arr []), hpaths]
  dsimp only
  split <;> rfl

theorem rawNotes_written (h : Written host fields n) :
    host.rawNotes fields = (n.notes.map fun note => Json.obj note.fields).zipIdx := by
  have hkept : ((n.notes.map fun note => (Json.obj note.fields : Json Str F)).zipIdx.filter
      fun note => ¬ (Host.isStr note.1 ∧ host.text note.1 = [])) =
      (n.notes.map fun note => Json.obj note.fields).zipIdx := by
    refine List.filter_eq_self.mpr fun raw hraw => decide_eq_true ?_
    obtain ⟨note, -, heq⟩ := List.mem_map.mp (List.fst_mem_of_mem_zipIdx hraw)
    rw [← heq]
    exact fun hstr => Bool.false_ne_true hstr.1
  unfold Host.rawNotes
  rw [getOr_of_lookup h.episodic, getOr_of_lookup h.notes .null]
  dsimp only
  split
  · next hnone =>
      -- without notes there are no texts of notes
      have hempty : n.notes = [] := List.map_eq_nil_iff.mp hnone.1
      rw [hempty] at hnone
      exact absurd hnone.2 Bool.false_ne_true
  · exact hkept

theorem episodicNotes_written (h : Written host fields n) (ht : Normal host n) :
    host.episodicNotes fields = some (n.notes.map (Note.again host)) := by
  have hmapM := mapM_zipIdx (k := fun note => (Json.obj note.fields : Json Str F))
    (f := host.normalizeNote) (g := Note.again host)
    (fun note hnote index => normalizeNote_fields (ht.notes note hnote) index) 0
  unfold Host.episodicNotes
  rw [rawNotes_written h, hmapM, Option.map_some, lastN_of_le]
  rw [List.length_map]
  exact ht.fewNotes

/-! ### File summaries -/

omit [FiniteFloat F] in
theorem lookup_json (entry : FileSummary) :
    ∃ inner : Fields F, entry.json = .obj inner ∧
      inner.lookup "summary".toList = some (.str entry.summary) ∧
      inner.lookup "created_at".toList = some (.str entry.createdAt) ∧
      inner.lookup "freshness".toList =
        some (match entry.freshness with | none => .null | some text => .str text) :=
  ⟨_, rfl, rfl, rfl, rfl⟩

omit [FiniteFloat F] in
theorem summarySource_json {entry : FileSummary} (h : entry.Tidy) :
    host.summarySource entry.json = entry.summary := by
  obtain ⟨inner, hjson, hsummary, -, -⟩ := lookup_json (F := F) entry
  rw [hjson]
  show host.text (getOr inner "summary" (.str [])) = _
  rw [getOr_of_lookup hsummary, text_str host h.summary]

omit [FiniteFloat F] in
theorem normalizeSummary_json {entry : FileSummary} (h : entry.Tidy) :
    host.normalizeSummary entry.json = entry.again := by
  have hsource : host.summarySource entry.json = entry.summary := summarySource_json h
  obtain ⟨inner, hjson, hsummary, hcreated, hfresh⟩ := lookup_json (F := F) entry
  rw [hjson] at hsource ⊢
  unfold Host.normalizeSummary
  dsimp only
  rw [hsource, getOr_of_lookup hcreated, getOr_of_lookup hfresh, text_str host h.createdAt,
    if_neg h.createdAt_ne]
  unfold FileSummary.again
  cases hcase : entry.freshness with
  | none => rfl
  | some text =>
      have htext := h.freshness text hcase
      dsimp only
      rw [text_str host htext.1, if_neg htext.2]

omit [FiniteFloat F] in
theorem foldl_kept {entries : List (Str × FileSummary)} {kept : List (Str × Json Str F)}
    (hkeys : ((kept.map Prod.fst) ++ entries.map Prod.fst).Nodup)
    (htidy : ∀ entry ∈ entries,
      host.canonicalizePath entry.1 = entry.1 ∧ entry.1 ≠ [] ∧ entry.2.Tidy) :
    (entries.map fun entry => (entry.1, (entry.2.json : Json Str F))).foldl (fun kept item =>
      if host.canonicalizePath item.1 = [] ∨ host.summarySource item.2 = [] then kept
      else assign (host.canonicalizePath item.1) item.2 kept) kept =
    kept ++ entries.map fun entry => (entry.1, entry.2.json) := by
  induction entries generalizing kept with
  | nil => rw [List.map_nil, List.append_nil]; rfl
  | cons entry rest ih =>
      rw [List.forall_mem_cons] at htidy
      obtain ⟨hcanonical, hne, hentry⟩ := htidy.1
      have hnew : entry.1 ∉ kept.map Prod.fst := fun hmem =>
        List.disjoint_of_nodup_append hkeys hmem List.mem_cons_self
      have hcond : ¬ (entry.1 = [] ∨ entry.2.summary = []) := by
        rw [not_or]
        exact ⟨hne, hentry.summary_ne⟩
      rw [List.map_cons, List.foldl_cons, hcanonical, summarySource_json hentry, if_neg hcond,
        assign_new hnew, ih _ htidy.2, List.append_assoc]
      · rfl
      · rw [List.map_append, List.append_assoc]
        exact hkeys

omit [FiniteFloat F] in
theorem keptSummaries_written (h : Written host fields n) (ht : Normal host n) :
    host.keptSummaries fields = n.summaries.map fun entry => (entry.1, entry.2.json) := by
  unfold Host.keptSummaries
  rw [getOr_of_lookup h.summaries]
  dsimp only
  have hkeys : (([] : List (Str × Json Str F)).map Prod.fst ++
      n.summaries.map Prod.fst).Nodup := ht.keys
  rw [foldl_kept hkeys ht.summaries]
  rfl

omit [FiniteFloat F] in
theorem fileSummaries_written (h : Written host fields n) (ht : Normal host n) :
    host.fileSummaries fields = n.summaries.map fun entry => (entry.1, entry.2.again) := by
  unfold Host.fileSummaries
  rw [keptSummaries_written h ht, List.map_map]
  refine List.map_congr_left fun entry hentry => ?_
  show (entry.1, host.normalizeSummary entry.2.json) = _
  rw [normalizeSummary_json (ht.summaries entry hentry).2.2]

/-! ### Indices -/

theorem maxIndex_lt_iff {notes : List Note} {bound : Int} (hbound : 0 ≤ bound) :
    Host.maxIndex notes < bound ↔ ∀ note ∈ notes, note.noteIndex < bound := by
  have hfold : ∀ (rest : List Note) (greatest : Int),
      rest.foldl (fun greatest note => max greatest note.noteIndex) greatest < bound ↔
        greatest < bound ∧ ∀ note ∈ rest, note.noteIndex < bound := by
    intro rest
    induction rest with
    | nil => simp
    | cons note rest ih =>
        intro greatest
        rw [List.foldl_cons, ih, List.forall_mem_cons, max_lt_iff, and_assoc]
  cases notes with
  | nil =>
      show (-1 : Int) < bound ↔ _
      refine iff_of_true (by omega) fun note hnote => absurd hnote List.not_mem_nil
  | cons first rest =>
      rw [List.forall_mem_cons]
      exact hfold rest first.noteIndex

omit [FiniteFloat F] in
theorem nextNoteIndex_written (h : Written host fields n) (ht : Normal host n) :
    Host.nextNoteIndex fields (n.notes.map (Note.again host)) = n.next := by
  have hbelow : Host.maxIndex (n.notes.map (Note.again host)) < n.next := by
    rw [maxIndex_lt_iff ht.next, List.forall_mem_map]
    exact ht.below
  have hnext := ht.next
  unfold Host.nextNoteIndex
  rw [getOr_of_lookup h.next]
  dsimp only
  rw [if_neg (by omega)]
  omega

/-- A written state is normalised to what was written, its texts clipped once more. -/
theorem normalized_written (h : Written host fields n) (ht : Normal host n) :
    host.normalized fields = some (n.again host) := by
  unfold Host.normalized
  rw [episodicNotes_written h ht, Option.map_some, taskSummary_written h ht,
    recentFiles_written h ht, fileSummaries_written h ht, nextNoteIndex_written h ht]
  rfl

end Again

/-! ## What is found in any state -/

section Found

theorem recentPaths_tidy (host : Host F) (value : Json Str F) :
    (∀ path ∈ host.recentPaths value, host.canonicalizePath path = path) ∧
      (host.recentPaths value).Nodup ∧ (host.recentPaths value).length ≤ workingFileLimit := by
  refine ⟨fun path hpath => ?_, ?_, ?_⟩
  · obtain ⟨raw, -, rfl⟩ := List.mem_map.mp (mem_of_mem_dedupe ((lastN_suffix _ _).subset hpath))
    exact canonicalizePath_idem host (host.str raw)
  · exact (nodup_dedupe _).sublist (lastN_suffix _ _).sublist
  · unfold Host.recentPaths
    rw [length_lastN]
    exact Nat.min_le_left _ _

theorem keptSummaries_tidy (host : Host F) (fields : Fields F) :
    ((host.keptSummaries fields).map Prod.fst).Nodup ∧
      ∀ entry ∈ host.keptSummaries fields, host.canonicalizePath entry.1 = entry.1 ∧
        entry.1 ≠ [] ∧ host.summarySource entry.2 ≠ [] := by
  have hfold : ∀ (items kept : List (Str × Json Str F)), (kept.map Prod.fst).Nodup →
      (∀ entry ∈ kept, host.canonicalizePath entry.1 = entry.1 ∧ entry.1 ≠ [] ∧
        host.summarySource entry.2 ≠ []) →
      let all := items.foldl (fun kept item =>
        if host.canonicalizePath item.1 = [] ∨ host.summarySource item.2 = [] then kept
        else assign (host.canonicalizePath item.1) item.2 kept) kept
      (all.map Prod.fst).Nodup ∧ ∀ entry ∈ all, host.canonicalizePath entry.1 = entry.1 ∧
        entry.1 ≠ [] ∧ host.summarySource entry.2 ≠ [] := by
    intro items
    induction items with
    | nil => exact fun kept hnodup hkept => ⟨hnodup, hkept⟩
    | cons item items ih =>
        intro kept hnodup hkept
        rw [List.foldl_cons]
        split
        · exact ih kept hnodup hkept
        · next hne =>
            rw [not_or] at hne
            refine ih _ (nodup_assign hnodup) fun entry hentry => ?_
            rcases of_mem_assign hentry with rfl | hentry
            · exact ⟨canonicalizePath_idem host item.1, hne⟩
            · exact hkept entry hentry
  exact hfold _ [] List.nodup_nil fun entry hentry => absurd hentry List.not_mem_nil

theorem tidy_normalizeSummary {value : Json Str F} (h : host.summarySource value ≠ []) :
    (host.normalizeSummary value).Tidy := by
  have hsource : Stripped (host.summarySource value) := by
    cases value <;> exact stripped_text host _
  have hplain : FileSummary.Tidy
      { summary := Layered.clip (host.summarySource value) 500
        createdAt := host.now, freshness := none } :=
    { summary := hsource.clip (by decide)
      summary_ne := fun hnil => h (clip_eq_nil_iff.mp hnil)
      createdAt := stripped_now host
      createdAt_ne := host.now_ne
      freshness := fun text htext => by cases htext }
  cases value with
  | obj fields =>
      unfold Host.normalizeSummary
      dsimp only
      refine ⟨hplain.summary, hplain.summary_ne, ?_, ?_, ?_⟩
      · dsimp only
        split
        · exact stripped_now host
        · exact stripped_text host _
      · dsimp only
        split
        · exact host.now_ne
        · next hne => exact hne
      · intro text htext
        dsimp only at htext
        split at htext
        · cases htext
        · split at htext
          · cases htext
          · next hne =>
              cases htext
              exact ⟨stripped_text host _, hne⟩
  | null | bool | int | float | nonFinite | str | arr => exact hplain

variable [FiniteFloat F] {fields : Fields F} {n : Normalized}

/-- The task before it is clipped. -/
def Host.taskSource (host : Host F) (state : Fields F) : Str :=
  let own := host.text (getOr (Host.working state) "task_summary" (.str []))
  if own = [] ∧ truthy (getOr state "task" .null) then host.text (getOr state "task" (.str []))
  else own

theorem taskSummary_eq (host : Host F) (state : Fields F) :
    host.taskSummary state = Layered.clip (host.taskSource state) 300 := by
  have hblank : ∀ value : Json Str F,
      stripList isSpace (Layered.clip (host.text value) 300) = [] ↔ host.text value = [] := by
    intro value
    rw [(stripped_text host value).clip (by decide), clip_eq_nil_iff]
  unfold Host.taskSummary Host.taskSource
  simp only [hblank]
  split <;> rfl

/-- The text of a note before it is clipped. -/
def Host.noteSource (host : Host F) : Json Str F → Str
  | .obj fields => host.text (getOr fields "text" (.str []))
  | other => host.text other

/-- The notes that stay. -/
def Host.keptNotes (host : Host F) (state : Fields F) : List (Json Str F) :=
  (lastN episodicNoteLimit (host.rawNotes state)).map Prod.fst

omit [FiniteFloat F] in
theorem text_normalizeNote (raw : Json Str F × Nat) (note : Note)
    (h : host.normalizeNote raw.1 raw.2 = some note) :
    note.text = Layered.clip (host.noteSource raw.1) 500 := by
  obtain ⟨value, index⟩ := raw
  cases value with
  | obj fields =>
      unfold Host.normalizeNote at h
      dsimp only at h
      obtain ⟨noteIndex, -, h⟩ := Option.bind_eq_some_iff.mp h
      cases h
      rfl
  | null | bool | int | float | nonFinite | str | arr =>
      cases h
      rfl

theorem episodicNotes_found {notes : List Note} (h : host.episodicNotes fields = some notes) :
    notes.map Note.text =
        (host.keptNotes fields).map (fun raw => Layered.clip (host.noteSource raw) 500) ∧
      notes.length ≤ episodicNoteLimit ∧ ∀ note ∈ notes, note.Tidy ∧ note.createdAt ≠ [] := by
  obtain ⟨all, hall, rfl⟩ := Option.map_eq_some_iff.mp h
  refine ⟨?_, ?_, fun note hnote => ?_⟩
  · rw [← lastN_map, map_of_mapM text_normalizeNote hall, lastN_map]
    unfold Host.keptNotes
    rw [List.map_map]
    rfl
  · rw [length_lastN]
    exact Nat.min_le_left _ _
  · exact forall_of_mapM (fun raw note => tidy_normalizeNote) hall note
      ((lastN_suffix _ _).subset hnote)

theorem tidy_normalized (h : host.normalized fields = some n) : Normal host n := by
  obtain ⟨notes, hnotes, rfl⟩ := Option.map_eq_some_iff.mp h
  obtain ⟨-, hfew, htidy⟩ := episodicNotes_found hnotes
  have hpaths : (∀ path ∈ host.recentFiles fields, host.canonicalizePath path = path) ∧
      (host.recentFiles fields).Nodup ∧ (host.recentFiles fields).length ≤ workingFileLimit := by
    unfold Host.recentFiles
    dsimp only
    split
    · exact recentPaths_tidy host _
    · exact recentPaths_tidy host _
  have hsource : Stripped (host.taskSource fields) := by
    unfold Host.taskSource
    dsimp only
    split
    · exact stripped_text host _
    · exact stripped_text host _
  have hnext : 0 ≤ Host.nextNoteIndex fields notes ∧
      Host.maxIndex notes < Host.nextNoteIndex fields notes := by
    unfold Host.nextNoteIndex
    dsimp only
    split
    · split
      · omega
      · omega
    · omega
    · omega
  have hkept := keptSummaries_tidy host fields
  refine ⟨?_, hpaths.1, hpaths.2.1, hpaths.2.2, fun note hnote => (htidy note hnote).1, hfew, ?_, ?_,
    hnext.1, (maxIndex_lt_iff hnext.1).mp hnext.2⟩
  · show Stripped (host.taskSummary fields)
    rw [taskSummary_eq]
    exact hsource.clip (by decide)
  · show (((host.keptSummaries fields).map _).map Prod.fst).Nodup
    rw [List.map_map]
    exact hkept.1
  · show ∀ entry ∈ (host.keptSummaries fields).map _, _
    rw [List.forall_mem_map]
    intro entry hentry
    obtain ⟨hcanonical, hne, hsource⟩ := hkept.2 entry hentry
    exact ⟨hcanonical, hne, tidy_normalizeSummary hsource⟩

end Found

/-! ## When normalising again changes nothing -/

section Idempotence

variable [FiniteFloat F] {fields : Fields F} {n : Normalized} {state after : Json Str F}

/-- No text that stays changes when its clipped form is clipped, and no recent file that stays
has a blank canonical path. -/
structure Host.Settled (host : Host F) (state : Fields F) : Prop where
  task : Settles (host.taskSource state) 300
  files : ∀ path ∈ host.recentFiles state, stripList isSpace path ≠ []
  notes : ∀ note ∈ host.keptNotes state, Settles (host.noteSource note) 500
  summaries : ∀ entry ∈ host.keptSummaries state, Settles (host.summarySource entry.2) 500

omit [FiniteFloat F] in
theorem again_eq_iff (hcreated : ∀ note ∈ n.notes, note.createdAt ≠ []) :
    n.again host = n ↔ Layered.clip n.task 300 = n.task ∧
      (∀ path ∈ n.files, stripList isSpace path ≠ []) ∧
      (∀ note ∈ n.notes, Layered.clip note.text 500 = note.text) ∧
      ∀ entry ∈ n.summaries, Layered.clip entry.2.summary 500 = entry.2.summary := by
  have hnotes : n.notes.map (Note.again host) = n.notes ↔
      ∀ note ∈ n.notes, Layered.clip note.text 500 = note.text := by
    conv_lhs => rhs; rw [← List.map_id n.notes]
    rw [List.map_inj_left]
    refine forall₂_congr fun note hnote => ?_
    constructor
    · exact fun h => congrArg Note.text h
    · intro h
      show Note.again host note = note
      unfold Note.again
      rw [h, if_neg (hcreated note hnote)]
  have hsummaries : (n.summaries.map fun entry => (entry.1, entry.2.again)) = n.summaries ↔
      ∀ entry ∈ n.summaries, Layered.clip entry.2.summary 500 = entry.2.summary := by
    conv_lhs => rhs; rw [← List.map_id n.summaries]
    rw [List.map_inj_left]
    refine forall₂_congr fun entry _ => ?_
    constructor
    · exact fun h => congrArg (fun entry => entry.2.summary) h
    · intro h
      show (entry.1, entry.2.again) = entry
      unfold FileSummary.again
      rw [h]
  have hfiles : (n.files.filter fun path => stripList isSpace path ≠ []) = n.files ↔
      ∀ path ∈ n.files, stripList isSpace path ≠ [] := by
    rw [List.filter_eq_self]
    exact forall₂_congr fun path _ => decide_eq_true_iff
  rw [← hnotes, ← hsummaries, ← hfiles]
  constructor
  · intro h
    exact ⟨congrArg Normalized.task h, congrArg Normalized.files h, congrArg Normalized.notes h,
      congrArg Normalized.summaries h⟩
  · rintro ⟨htask, hfiles, hnotes, hsummaries⟩
    unfold Normalized.again
    rw [htask, hfiles, hnotes, hsummaries]

omit [FiniteFloat F] in
theorem summary_normalizeSummary (value : Json Str F) :
    (host.normalizeSummary value).summary = Layered.clip (host.summarySource value) 500 := by
  cases value <;> rfl

theorem again_eq_iff_settled (h : host.normalized fields = some n) :
    n.again host = n ↔ host.Settled fields := by
  obtain ⟨notes, hnotes, rfl⟩ := Option.map_eq_some_iff.mp h
  obtain ⟨htexts, -, htidy⟩ := episodicNotes_found hnotes
  have hclipped : (∀ note ∈ notes, Layered.clip note.text 500 = note.text) ↔
      ∀ raw ∈ host.keptNotes fields, Settles (host.noteSource raw) 500 := by
    calc (∀ note ∈ notes, Layered.clip note.text 500 = note.text)
        ↔ ∀ text ∈ notes.map Note.text, Layered.clip text 500 = text :=
          (List.forall_mem_map (P := fun text => Layered.clip text 500 = text)).symm
      _ ↔ ∀ raw ∈ host.keptNotes fields,
            Layered.clip (Layered.clip (host.noteSource raw) 500) 500 =
              Layered.clip (host.noteSource raw) 500 := by
          rw [htexts, List.forall_mem_map]
      _ ↔ _ := forall₂_congr fun raw _ => clip_clip_iff _ 500
  have hsummaries : (∀ entry ∈ host.fileSummaries fields,
        Layered.clip entry.2.summary 500 = entry.2.summary) ↔
      ∀ entry ∈ host.keptSummaries fields, Settles (host.summarySource entry.2) 500 := by
    unfold Host.fileSummaries
    rw [List.forall_mem_map]
    refine forall₂_congr fun entry _ => ?_
    rw [summary_normalizeSummary]
    exact clip_clip_iff _ 500
  rw [again_eq_iff fun note hnote => (htidy note hnote).2]
  dsimp only
  rw [hclipped, hsummaries, taskSummary_eq, clip_clip_iff]
  constructor
  · rintro ⟨htask, hfiles, hnotes, hsummaries⟩
    exact ⟨htask, hfiles, hnotes, hsummaries⟩
  · intro hsettled
    exact ⟨hsettled.task, hsettled.files, hsettled.notes, hsettled.summaries⟩

/-- The state that is normalised. -/
def Host.entries : Json Str F → Fields F
  | .obj fields => fields
  | _ => Host.defaultMemoryState

theorem normalizeMemoryState_cases (h : host.normalizeMemoryState state = some after) :
    ∃ n, host.normalized (Host.entries state) = some n ∧
      after = .obj (host.write (Host.entries state) n) := by
  cases state with
  | null | obj =>
      unfold Host.normalizeMemoryState at h
      obtain ⟨n, hn, rfl⟩ := Option.map_eq_some_iff.mp h
      exact ⟨n, hn, rfl⟩
  | bool | int | float | nonFinite | str | arr => cases h

theorem normalizeMemoryState_written (h : Written host fields n) (ht : Normal host n) :
    host.normalizeMemoryState (.obj fields) = some (.obj (host.write fields (n.again host))) := by
  show (host.normalized fields).map _ = _
  rw [normalized_written h ht]
  rfl

theorem normalizeMemoryState_again_iff (h : host.normalizeMemoryState state = some after) :
    host.normalizeMemoryState after = some after ↔ host.Settled (Host.entries state) := by
  obtain ⟨n, hn, rfl⟩ := normalizeMemoryState_cases h
  have hwritten := written_write host (Host.entries state) n
  rw [normalizeMemoryState_written hwritten (tidy_normalized hn), ← again_eq_iff_settled hn,
    Option.some.injEq, Json.obj.injEq]
  constructor
  · intro hsame
    have hagain := written_write host (host.write (Host.entries state) n) (n.again host)
    rw [hsame] at hagain
    exact hwritten.unique hagain
  · intro hsame
    rw [hsame]
    exact write_of_written hwritten

end Idempotence

end Layered
end CodeCub

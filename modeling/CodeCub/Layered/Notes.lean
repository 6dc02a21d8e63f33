import CodeCub.Layered.Normalised

/-!
# Appended notes

`append_note` of `codecub/memory.py` normalises the state before it drops the notes whose
text is the new one.  A stored text that is clipped once more by this is not recognised, and
may become the text of another note.
-/

namespace CodeCub
namespace Layered

open Python
open Models (Fields truthy getOr)

variable {F : Type} [FiniteFloat F]

/-- The arguments of `append_note`. -/
structure Append (F : Type) where
  text : Json Str F
  tags : Json Str F := .arr []
  source : Json Str F := .str []
  createdAt : Json Str F := .null
  kind : Json Str F := .str "episodic".toList

/-- `state["episodic_notes"]`. -/
def storedNotes (fields : Fields F) : List (Json Str F) :=
  match getOr fields "episodic_notes" .null with
  | .arr items => items
  | _ => []

/-- `state["next_note_index"]`. -/
def storedNext (fields : Fields F) : Json Str F := getOr fields "next_note_index" (.int 0)

/-- `item["text"]`, which is a text once the state is normalised. -/
def itemText : Json Str F → Str
  | .obj fields =>
      match getOr fields "text" .null with
      | .str text => text
      | _ => []
  | _ => []

namespace Host

variable (host : Host F)

def newNote (call : Append F) (noteIndex : Int) : Note :=
  let kind := host.text call.kind
  { text := clip (host.text call.text) 500
    tags := host.tagList call.tags
    source := host.text call.source
    createdAt := if truthy call.createdAt then host.text call.createdAt else host.now
    noteIndex := noteIndex
    kind := if kind = [] then "episodic".toList else kind }

/-- `append_note`, `none` where it raises. -/
def appendNote (state : Json Str F) (call : Append F) : Option (Json Str F) :=
  match host.normalizeMemoryState state with
  | some (.obj fields) =>
      if clip (host.text call.text) 500 = [] then some (.obj fields)
      else do
        let noteIndex ← host.int (storedNext fields)
        let note := host.newNote call noteIndex
        let fields := set fields "next_note_index" (.int (noteIndex + 1))
        let notes := (storedNotes fields).filter (fun item => itemText item ≠ note.text) ++
          [.obj note.fields]
        let fields := set fields "episodic_notes" (.arr (lastN episodicNoteLimit notes))
        some (.obj (set fields "notes" (strings ((storedNotes fields).map itemText))))
  | _ => none

/-- A run of calls. -/
def appendAll (state : Json Str F) : List (Append F) → Option (Json Str F)
  | [] => some state
  | call :: calls => (host.appendNote state call).bind fun after => appendAll after calls

end Host

/-- What one call makes of a normalised state. -/
def Normalized.append (host : Host F) (call : Append F) (n : Normalized) : Normalized :=
  let note := host.newNote call n.next
  if note.text = [] then n
  else
    { n with
      notes := lastN episodicNoteLimit (n.notes.filter (fun old => old.text ≠ note.text) ++ [note])
      next := n.next + 1 }

variable {host : Host F} {fields : Fields F} {n : Normalized} {call : Append F}

/-! ## One call -/

omit [FiniteFloat F] in
theorem itemText_fields (note : Note) : itemText (.obj (note.fields : Fields F)) = note.text := rfl

omit [FiniteFloat F] in
theorem storedNotes_of_written (h : Written host fields n) :
    storedNotes fields = n.notes.map fun note => .obj note.fields := by
  unfold storedNotes
  rw [getOr_of_lookup h.episodic]

omit [FiniteFloat F] in
theorem storedNext_of_written (h : Written host fields n) : storedNext fields = .int n.next :=
  getOr_of_lookup h.next _

omit [FiniteFloat F] in
/-- What is written under the three keys that a call writes. -/
theorem Written.withNotes (h : Written host fields n) (notes : List Note) (next : Int) :
    Written host
      (set (set (set fields "next_note_index" (.int next)) "episodic_notes"
        (.arr (notes.map fun note => .obj note.fields))) "notes" (strings (notes.map Note.text)))
      { n with notes := notes, next := next } := by
  constructor
  · obtain ⟨inner, hinner, hworking⟩ := h.working
    refine ⟨inner, ?_, ⟨hworking.task, hworking.files⟩⟩
    simp only [lookup_set]
    exact hinner
  · simp only [lookup_set]
    rfl
  · simp only [lookup_set]
    exact h.summaries
  · simp only [lookup_set]
    rfl
  · simp only [lookup_set]
    exact h.task
  · simp only [lookup_set]
    exact h.files
  · simp only [lookup_set]
    rfl
  · simp only [lookup_set]
    exact h.topics

omit [FiniteFloat F] in
theorem storedNotes_set (d : Fields F) (items : List (Json Str F)) :
    storedNotes (set d "episodic_notes" (.arr items)) = items := by
  unfold storedNotes getOr
  rw [lookup_set, if_pos rfl]
  rfl

omit [FiniteFloat F] in
theorem storedNotes_set_next (d : Fields F) (value : Json Str F) :
    storedNotes (set d "next_note_index" value) = storedNotes d := by
  unfold storedNotes getOr
  rw [lookup_set]
  rfl

/-- A call does to the state what `Normalized.append` does to what it is normalised to. -/
theorem appendNote_normalized (h : host.normalized fields = some n) (call : Append F) :
    ∃ after, host.appendNote (.obj fields) call = some (.obj after) ∧
      Written host after (n.append host call) := by
  have hstate : host.normalizeMemoryState (.obj fields) = some (.obj (host.write fields n)) := by
    show (host.normalized fields).map _ = _
    rw [h]
    rfl
  have hwritten := written_write host fields n
  unfold Host.appendNote Normalized.append
  rw [hstate]
  dsimp only
  by_cases hblank : clip (host.text call.text) 500 = []
  · have hnone : (host.newNote call n.next).text = [] := hblank
    rw [if_pos hblank, if_pos hnone]
    exact ⟨_, rfl, hwritten⟩
  · have hsome : ¬ (host.newNote call n.next).text = [] := hblank
    rw [if_neg hblank, if_neg hsome, storedNext_of_written hwritten, host.int_int]
    refine ⟨_, rfl, ?_⟩
    generalize host.newNote call n.next = note
    have hnotes : lastN episodicNoteLimit
        ((n.notes.map fun old => (Json.obj old.fields : Json Str F)).filter
          (fun item => itemText item ≠ note.text) ++ [.obj note.fields]) =
        (lastN episodicNoteLimit (n.notes.filter (fun old => old.text ≠ note.text) ++ [note])).map
          fun old => .obj old.fields := by
      rw [← lastN_map, List.map_append, List.filter_map]
      rfl
    have htexts : ∀ notes : List Note,
        (notes.map fun old => (Json.obj old.fields : Json Str F)).map itemText =
          notes.map Note.text := by
      intro notes
      rw [List.map_map]
      rfl
    rw [storedNotes_set, storedNotes_set_next, storedNotes_of_written hwritten, hnotes, htexts]
    exact hwritten.withNotes _ _

/-! ## Runs -/

theorem Normal.append (h : Normal host n) (call : Append F) : Normal host (n.append host call) := by
  unfold Normalized.append
  dsimp only
  split
  · exact h
  · have hnew : (host.newNote call n.next).Tidy := by
      refine ⟨(stripped_text host _).clip (by decide), nodup_tagList _,
        fun tag htag => of_mem_tagList htag, stripped_text host _, ?_, ?_, ?_⟩
      · show Stripped (if _ then _ else _)
        split
        · exact stripped_text host _
        · exact stripped_now host
      · show Stripped (if _ then _ else _)
        split
        · exact rfl
        · exact stripped_text host _
      · show (if _ then _ else _) ≠ []
        split
        · exact List.cons_ne_nil _ _
        · next hne => exact hne
    have hmem : ∀ note ∈ lastN episodicNoteLimit
        (n.notes.filter (fun old => old.text ≠ (host.newNote call n.next).text) ++
          [host.newNote call n.next]), note ∈ n.notes ∨ note = host.newNote call n.next := by
      intro note hnote
      rcases List.mem_append.mp ((lastN_suffix _ _).subset hnote) with hold | hnew
      · exact Or.inl (List.mem_of_mem_filter hold)
      · exact Or.inr (List.mem_singleton.mp hnew)
    have hnext := h.next
    refine { h with notes := ?_, fewNotes := ?_, next := ?_, below := ?_ }
    · intro note hnote
      rcases hmem note hnote with hold | rfl
      · exact h.notes note hold
      · exact hnew
    · dsimp only
      rw [length_lastN]
      exact Nat.min_le_left _ _
    · dsimp only
      omega
    · intro note hnote
      dsimp only
      rcases hmem note hnote with hold | rfl
      · have hlt := h.below note hold
        omega
      · show n.next < n.next + 1
        omega

/-- A state of a run: it holds these notes, and is normalised to them clipped once more. -/
structure Reached (host : Host F) (fields : Fields F) (n : Normalized) : Prop where
  notes : storedNotes fields = n.notes.map fun note => .obj note.fields
  next : storedNext fields = .int n.next
  normal : Normal host n
  again : host.normalized fields = some (n.again host)

def Normalized.step (host : Host F) (n : Normalized) (call : Append F) : Normalized :=
  (n.again host).append host call

theorem appendNote_reached (h : Reached host fields n) (call : Append F) :
    ∃ after, host.appendNote (.obj fields) call = some (.obj after) ∧
      Reached host after (n.step host call) := by
  obtain ⟨after, hafter, hwritten⟩ := appendNote_normalized h.again call
  have hnormal : Normal host (n.step host call) := (tidy_normalized h.again).append call
  exact ⟨after, hafter, storedNotes_of_written hwritten, storedNext_of_written hwritten, hnormal,
    normalized_written hwritten hnormal⟩

theorem appendAll_reached (h : Reached host fields n) (calls : List (Append F)) :
    ∃ after, host.appendAll (.obj fields) calls = some (.obj after) ∧
      Reached host after (calls.foldl (Normalized.step host) n) := by
  induction calls generalizing fields n with
  | nil => exact ⟨fields, rfl, h⟩
  | cons call calls ih =>
      obtain ⟨middle, hmiddle, hstep⟩ := appendNote_reached h call
      obtain ⟨after, hafter, hall⟩ := ih hstep
      refine ⟨after, ?_, hall⟩
      unfold Host.appendAll
      rw [hmiddle]
      exact hafter

/-- What a run starts from. -/
def Normalized.empty : Normalized :=
  { task := [], files := [], notes := [], summaries := [], next := 0 }

theorem reached_default (host : Host F) :
    Reached host Host.defaultMemoryState Normalized.empty where
  notes := rfl
  next := rfl
  normal :=
    { task := rfl
      canonical := fun path hpath => absurd hpath List.not_mem_nil
      files := List.nodup_nil
      few := Nat.zero_le _
      notes := fun note hnote => absurd hnote List.not_mem_nil
      fewNotes := Nat.zero_le _
      keys := List.nodup_nil
      summaries := fun entry hentry => absurd hentry List.not_mem_nil
      next := le_rfl
      below := fun note hnote => absurd hnote List.not_mem_nil }
  again := by
    have htask : host.taskSummary Host.defaultMemoryState = [] := by
      show (if _ then clip (host.text (.str [])) 300 else clip (host.text (.str [])) 300) = []
      rw [ite_self, text_str host (show Stripped [] from rfl)]
      rfl
    have hfiles : host.recentFiles Host.defaultMemoryState = [] := rfl
    have hnotes : host.episodicNotes Host.defaultMemoryState = some [] := rfl
    unfold Host.normalized
    rw [hnotes, htask, hfiles]
    rfl

/-! ## The texts of a run -/

def Normalized.texts (n : Normalized) : List Str := n.notes.map Note.text

def pushText (texts : List Str) (text : Str) : List Str :=
  lastN episodicNoteLimit (texts.filter (· ≠ text) ++ [text])

theorem nodup_pushText {texts : List Str} (h : texts.Nodup) (text : Str) :
    (pushText texts text).Nodup := by
  refine List.Nodup.sublist (lastN_suffix _ _).sublist ?_
  refine List.nodup_append.mpr ⟨h.filter _, List.nodup_singleton text, ?_⟩
  intro a ha b hb heq
  rw [List.mem_singleton.mp hb] at heq
  exact of_decide_eq_true (List.mem_filter.mp ha).2 heq

theorem of_mem_pushText {texts : List Str} {text other : Str} (h : other ∈ pushText texts text) :
    other ∈ texts ∨ other = text := by
  rcases List.mem_append.mp ((lastN_suffix _ _).subset h) with hold | hnew
  · exact Or.inl (List.mem_of_mem_filter hold)
  · exact Or.inr (List.mem_singleton.mp hnew)

theorem pushText_eq (texts : List Str) (text : Str) :
    pushText texts text = lastN (episodicNoteLimit - 1) (texts.filter (· ≠ text)) ++ [text] :=
  lastN_concat (episodicNoteLimit - 1) (texts.filter (· ≠ text)) text

/-- A text that is the last one is not stored again. -/
theorem pushText_pushText (texts : List Str) (text : Str) :
    pushText (pushText texts text) text = pushText texts text := by
  have hothers : (lastN (episodicNoteLimit - 1) (texts.filter (· ≠ text))).filter (· ≠ text) =
      lastN (episodicNoteLimit - 1) (texts.filter (· ≠ text)) :=
    List.filter_eq_self.mpr fun other hother =>
      (List.mem_filter.mp ((lastN_suffix _ _).subset hother)).2
  have hself : [text].filter (· ≠ text) = [] := by
    rw [List.filter_cons_of_neg (by rw [decide_eq_true_iff]; exact fun h => h rfl), List.filter_nil]
  rw [pushText_eq (pushText texts text), pushText_eq texts, List.filter_append, hothers, hself,
    List.append_nil, lastN_of_le]
  rw [length_lastN]
  exact Nat.min_le_left _ _

theorem texts_append (n : Normalized) (call : Append F) :
    (n.append host call).texts =
      if clip (host.text call.text) 500 = [] then n.texts
      else pushText n.texts (clip (host.text call.text) 500) := by
  unfold Normalized.append
  dsimp only
  have htext : (host.newNote call n.next).text = clip (host.text call.text) 500 := rfl
  rw [htext]
  split
  · rfl
  · show (lastN _ _).map Note.text = _
    rw [← lastN_map, List.map_append, ← htext]
    unfold pushText Normalized.texts
    rw [List.filter_map]
    rfl

/-- The stored texts differ, and are clipped to themselves. -/
structure Distinct (n : Normalized) : Prop where
  nodup : n.texts.Nodup
  clipped : ∀ text ∈ n.texts, clip text 500 = text

omit [FiniteFloat F] in
theorem Distinct.again (h : Distinct n) (host : Host F) : (n.again host).texts = n.texts := by
  have hmap : (n.again host).texts = n.texts.map fun text => clip text 500 := by
    unfold Normalized.texts Normalized.again
    dsimp only
    rw [List.map_map, List.map_map]
    rfl
  rw [hmap]
  exact (List.map_congr_left h.clipped).trans (List.map_id _)

theorem texts_step (h : Distinct n) (call : Append F) :
    (n.step host call).texts =
      if clip (host.text call.text) 500 = [] then n.texts
      else pushText n.texts (clip (host.text call.text) 500) := by
  unfold Normalized.step
  rw [texts_append, h.again]

theorem Distinct.step (h : Distinct n) (hcall : Settles (host.text call.text) 500) :
    Distinct (n.step host call) := by
  have htexts : (n.step host call).texts = _ := texts_step h call
  split at htexts
  · exact ⟨by rw [htexts]; exact h.nodup, by rw [htexts]; exact h.clipped⟩
  · refine ⟨by rw [htexts]; exact nodup_pushText h.nodup _, ?_⟩
    rw [htexts]
    intro text htext
    rcases of_mem_pushText htext with hold | rfl
    · exact h.clipped text hold
    · exact (clip_clip_iff _ 500).mpr hcall

theorem Distinct.steps (h : Distinct n) (calls : List (Append F))
    (hcalls : ∀ call ∈ calls, Settles (host.text call.text) 500) :
    Distinct (calls.foldl (Normalized.step host) n) := by
  induction calls generalizing n with
  | nil => exact h
  | cons call calls ih =>
      rw [List.forall_mem_cons] at hcalls
      exact ih (h.step hcalls.1) hcalls.2

theorem distinct_empty : Distinct Normalized.empty :=
  ⟨List.nodup_nil, fun _ htext => absurd htext List.not_mem_nil⟩

/-- The same text twice in a row. -/
theorem texts_step_step (h : Distinct n) {first second : Append F}
    (hfirst : Settles (host.text first.text) 500)
    (hsame : host.text second.text = host.text first.text) :
    ((n.step host first).step host second).texts = (n.step host first).texts := by
  rw [texts_step (h.step hfirst), texts_step h, hsame]
  split
  · rfl
  · exact pushText_pushText _ _

/-- The texts of the notes of a state. -/
def storedTexts : Json Str F → List Str
  | .obj fields => (storedNotes fields).map itemText
  | _ => []

theorem Reached.storedTexts (h : Reached host fields n) :
    storedTexts (Json.obj fields) = n.texts := by
  show (storedNotes fields).map itemText = _
  rw [h.notes, List.map_map]
  rfl

theorem count_texts_step (h : Distinct n) (hcall : Settles (host.text call.text) 500)
    (hne : host.text call.text ≠ []) :
    (n.step host call).texts.count (clip (host.text call.text) 500) = 1 := by
  have htexts : (n.step host call).texts = _ := texts_step h call
  rw [if_neg (mt clip_eq_nil_iff.mp hne)] at htexts
  apply List.count_eq_one_of_mem (h.step hcall).nodup
  rw [htexts, pushText_eq]
  exact List.mem_append_right _ (List.mem_singleton_self _)

/-- Normalising again changes nothing exactly when every text that stays fits its limit or is
24 characters too long.  In every run of appended texts of this kind the notes differ, and the
same text twice leaves what it leaves once. -/
theorem memory_settles_iff (host : Host F) :
    (∀ state after, host.normalizeMemoryState state = some after →
      (host.normalizeMemoryState after = some after ↔ host.Settled (Host.entries state))) ∧
    ∀ calls : List (Append F), ∃ (fields : Fields F) (notes : List Note) (next : Int),
      host.appendAll (.obj Host.defaultMemoryState) calls = some (.obj fields) ∧
      storedNotes fields = notes.map (fun note => .obj note.fields) ∧
      storedNext fields = .int next ∧
      notes.length ≤ episodicNoteLimit ∧ (∀ note ∈ notes, note.noteIndex < next) ∧
      ((∀ call ∈ calls, Settles (host.text call.text) 500) →
        (notes.map Note.text).Nodup ∧
        ∀ first second : Append F, Settles (host.text first.text) 500 →
          host.text second.text = host.text first.text →
          ∃ once twice, host.appendAll (.obj fields) [first] = some once ∧
            host.appendAll (.obj fields) [first, second] = some twice ∧
            storedTexts twice = storedTexts once ∧
            (host.text first.text ≠ [] →
              (storedTexts twice).count (clip (host.text first.text) 500) = 1)) := by
  refine ⟨fun state after h => normalizeMemoryState_again_iff h, fun calls => ?_⟩
  obtain ⟨fields, hrun, hreached⟩ := appendAll_reached (reached_default host) calls
  refine ⟨fields, _, _, hrun, hreached.notes, hreached.next, hreached.normal.fewNotes,
    hreached.normal.below, fun hcalls => ?_⟩
  have hdistinct := distinct_empty.steps calls hcalls
  refine ⟨hdistinct.nodup, fun first second hfirst hsame => ?_⟩
  obtain ⟨once, honce, hreached₁⟩ := appendAll_reached hreached [first]
  obtain ⟨twice, htwice, hreached₂⟩ := appendAll_reached hreached [first, second]
  have hsecond : Settles (host.text second.text) 500 := by
    rw [hsame]
    exact hfirst
  refine ⟨_, _, honce, htwice, ?_, fun hne => ?_⟩
  · rw [hreached₁.storedTexts, hreached₂.storedTexts]
    exact texts_step_step hdistinct hfirst hsame
  · rw [hreached₂.storedTexts, ← hsame]
    rw [← hsame] at hne
    exact count_texts_step (hdistinct.step hfirst) hsecond hne

/-! ## A state that does not settle -/

/-- Texts and integers, a fixed clock and no workspace root. -/
def plainHost : Host Empty where
  str value := match value with
    | .str text => text
    | _ => []
  int value := match value with
    | .int n => some n
    | _ => none
  now := "2026-01-01T00:00:00+00:00".toList
  posix path := path
  inside _ := none
  topicSlugs := []
  str_str _ := rfl
  int_int _ := rfl
  now_ne := List.cons_ne_nil _ _
  now_stripped := by decide
  posix_posix _ := rfl
  inside_posix _ := rfl
  inside_inside _ _ h := by cases h

def longTask : Fields Empty := [("task".toList, .str (List.replicate 301 'x'))]

def longNote : Append Empty := { text := .str (List.replicate 501 'x') }

/-- A task of 301 characters is changed again, and a note of 501 appended twice is two notes. -/
theorem long_texts_change :
    (∃ after, plainHost.normalizeMemoryState (.obj longTask) = some after ∧
      plainHost.normalizeMemoryState after ≠ some after) ∧
    (plainHost.appendAll (.obj Host.defaultMemoryState) [longNote]).map
      (fun state => (storedTexts state).length) = some 1 ∧
    (plainHost.appendAll (.obj Host.defaultMemoryState) [longNote, longNote]).map
      (fun state => (storedTexts state).length) = some 2 := by
  obtain ⟨after, hafter⟩ : ∃ after,
      plainHost.normalizeMemoryState (.obj longTask) = some after := ⟨_, rfl⟩
  refine ⟨⟨after, hafter, fun hsame => ?_⟩, by decide +kernel, by decide +kernel⟩
  have hsettled := (normalizeMemoryState_again_iff hafter).mp hsame
  exact absurd hsettled.task (by decide +kernel)

end Layered
end CodeCub

import CodeCub.Python.Lines

/-!
# The two readers of an event stream

`codecub/models.py`: `complete` reads the whole body with `splitlines` and returns at the
first event that finishes with a text; `stream_complete` reads it newline by newline and
joins the deltas of both APIs.
-/

namespace CodeCub
namespace Models

open Python

variable {F : Type} [FiniteFloat F]

/-- A `dict` of the JSON payload. -/
abbrev Fields (F : Type) := List (Str × Json Str F)

inductive ReadError where
  | attributeError
  | typeError
  | keyError
  /-- `RuntimeError("... could not extract text from event stream response")`. -/
  | noText
  deriving DecidableEq

/-! ## Texts of a response -/

/-- `bool(value)`. -/
def truthy : Json Str F → Bool
  | .null => false
  | .bool b => b
  | .int n => n ≠ 0
  | .float x => FiniteFloat.value x ≠ 0
  | .nonFinite _ => true
  | .str s => s ≠ []
  | .arr items => !items.isEmpty
  | .obj fields => !fields.isEmpty

/-- `for item in value`. -/
def iterate : Json Str F → Except ReadError (List (Json Str F))
  | .arr items => .ok items
  | .str s => .ok (s.map fun c => .str [c])
  | .obj fields => .ok (fields.map fun field => .str field.1)
  | _ => .error .typeError

/-- What `.get` needs. -/
def asDict : Json Str F → Except ReadError (Fields F)
  | .obj fields => .ok fields
  | _ => .error .attributeError

/-- `data.get(key, default)`. -/
def getOr (data : Fields F) (key : String) (default : Json Str F) : Json Str F :=
  (data.lookup key.toList).getD default

/-- The first text of the parts of a content. -/
def partText : List (Json Str F) → Option (Json Str F)
  | [] => none
  | .obj content :: contents =>
      if truthy (getOr content "text" .null) then some (getOr content "text" .null)
      else partText contents
  | _ :: contents => partText contents

def outputText : List (Json Str F) → Except ReadError (Option (Json Str F))
  | [] => .ok none
  | item :: items => do
      let fields ← asDict item
      let contents ← iterate (getOr fields "content" (.arr []))
      match partText contents with
      | some text => pure (some text)
      | none => outputText items

/-- `choices[0]`. -/
def firstChoice : Json Str F → Except ReadError (Json Str F)
  | .arr (choice :: _) => .ok choice
  | .str (c :: _) => .ok (.str [c])
  | .obj _ => .error .keyError
  | _ => .error .typeError

def choicesText (choices : Json Str F) : Except ReadError (Json Str F) :=
  if truthy choices then do
    let choice ← firstChoice choices
    let fields ← asDict choice
    let message ← asDict (getOr fields "message" (.obj []))
    match message.lookup "content".toList with
    | some (.str content) => pure (.str content)
    | some (.arr items) => pure ((partText items).getD (.str []))
    | _ => pure (.str [])
  else .ok (.str [])

/-- `_extract_openai_text`. -/
def extractOpenaiText (data : Fields F) : Except ReadError (Json Str F) :=
  if truthy (getOr data "output_text" .null) then .ok (getOr data "output_text" .null)
  else do
    let items ← iterate (getOr data "output" (.arr []))
    match ← outputText items with
    | some text => pure text
    | none => choicesText (getOr data "choices" (.arr []))

/-! ## Events -/

/-- `"data:"`. -/
def dataField : Str := ['d', 'a', 't', 'a', ':']

/-- `_decode_sse_event`. -/
def decodeSseEvent (line : Str) : Option (Json Str F) :=
  let line := stripList isSpace line
  if dataField <+: line then
    let payload := stripList isSpace (line.drop dataField.length)
    if payload = [] ∨ payload = "[DONE]".toList then none else loads payload
  else none

def events (lines : List Str) : List (Json Str F) := lines.filterMap decodeSseEvent

/-- `event.get("type", "") == name`. -/
def hasType (event : Fields F) (name : String) : Bool :=
  match event.lookup "type".toList with
  | some (.str type) => type = name.toList
  | _ => false

/-- The text of a `response.output_text.delta` event. -/
def responseDelta : Json Str F → Option Str
  | .obj event =>
      if hasType event "response.output_text.delta" then
        match event.lookup "delta".toList with
        | some (.str delta) => some delta
        | _ => none
      else none
  | _ => none

/-- The text of a chat completion chunk. -/
def chunkContent (event : Fields F) : Str :=
  match event.lookup "choices".toList with
  | some (.arr (.obj choice :: _)) =>
      match choice.lookup "delta".toList with
      | some (.obj delta) =>
          match delta.lookup "content".toList with
          | some (.str content) => content
          | _ => []
      | _ => []
  | _ => []

/-- What `iter_openai_text_deltas_from_sse` yields for an event; an empty text is not
yielded. -/
def deltaText : Json Str F → Str
  | .obj event =>
      if hasType event "response.output_text.delta" then (responseDelta (.obj event)).getD []
      else chunkContent event
  | _ => []

/-- The `response` of an event. -/
def responseOf : Json Str F → Option (Fields F)
  | .obj event =>
      match event.lookup "response".toList with
      | some (.obj response) => some response
      | _ => none
  | _ => none

/-- The text with which `_extract_openai_response_from_sse` returns at an event. -/
def finishing : Json Str F → Except ReadError (Option (Json Str F))
  | .obj event => do
      let completed ← match responseOf (.obj event) with
        | some response =>
            if hasType event "response.completed" then extractOpenaiText response
            else pure (.str [])
        | none => pure (.str [])
      if truthy completed then pure (some completed)
      else if hasType event "response.output_text.delta" then pure none
      else if hasType event "response.output_text.done" then
        match event.lookup "text".toList with
        | some (.str text) => pure (if text = [] then none else some (.str text))
        | _ => pure none
      else do
        let text ← extractOpenaiText event
        pure (if truthy text then some text else none)
  | _ => .error .attributeError

/-! ## The readers -/

/-- `_extract_openai_response_from_sse` on the events of the lines, without the response it
returns beside the text. -/
def extractFromSse : List (Json Str F) → Option (Fields F) → List Str →
    Except ReadError (Json Str F)
  | [], last, deltas =>
      if deltas ≠ [] then .ok (.str deltas.flatten)
      else
        match last with
        | some response => extractOpenaiText response
        | none => .ok (.str [])
  | event :: events, last, deltas => do
      match ← finishing event with
      | some text => pure text
      | none =>
          extractFromSse events ((responseOf event).or last) (deltas ++ (responseDelta event).toList)

/-- What `complete` returns for a body. -/
def complete (body : Str) : Except ReadError (Json Str F) := do
  let text ← extractFromSse (events (splitlines body)) none []
  if truthy text then pure text else .error .noText

/-- The lines of a file object: a line ends with its newline. -/
def fileLines : Str → List Str
  | [] => []
  | c :: rest => if c = '\n' then ['\n'] :: fileLines rest else glue c (fileLines rest)

/-- The texts that are passed to `on_delta` while the lines are read. -/
def textParts (F : Type) [FiniteFloat F] (lines : List Str) : List Str :=
  ((events lines : List (Json Str F)).map deltaText).filter (· ≠ [])

/-- What `stream_complete` passes to `on_delta`, and what it returns. -/
def streamComplete (lines : List Str) : List (Json Str F) × Except ReadError (Json Str F) :=
  let parts := textParts F lines
  if parts ≠ [] then (parts.map Json.str, .ok (.str parts.flatten))
  else
    match extractFromSse (events (splitlines lines.flatten)) none [] with
    | .error error => ([], .error error)
    | .ok text =>
        if truthy text then
          match text with
          | .str text => ([.str text], .ok (.str text))
          -- `"".join` of something that is no string
          | text => ([text], .error .typeError)
        else ([], .error .noText)

/-- Both return one text, or both raise. -/
inductive SameReading : Except ReadError (Json Str F) → Except ReadError (Json Str F) → Prop where
  | text (text : Json Str F) : SameReading (.ok text) (.ok text)
  | raised (error error' : ReadError) : SameReading (.error error) (.error error')

def Agree (F : Type) [FiniteFloat F] (body : Str) : Prop :=
  SameReading (complete body : Except ReadError (Json Str F)) (streamComplete (fileLines body)).2

/-! ## The text of the whole body -/

/-- The last `response` of the events. -/
def lastResponse (events : List (Json Str F)) (last : Option (Fields F)) : Option (Fields F) :=
  events.foldl (fun last event => (responseOf event).or last) last

theorem extractFromSse_nil (last : Option (Fields F)) (deltas : List Str) :
    extractFromSse [] last deltas =
      if deltas ≠ [] then .ok (.str deltas.flatten)
      else
        match last with
        | some response => extractOpenaiText response
        | none => .ok (.str []) := rfl

theorem extractFromSse_cons (event : Json Str F) (events : List (Json Str F))
    (last : Option (Fields F)) (deltas : List Str) :
    extractFromSse (event :: events) last deltas =
      match finishing event with
      | .error error => .error error
      | .ok (some text) => .ok text
      | .ok none =>
          extractFromSse events ((responseOf event).or last)
            (deltas ++ (responseDelta event).toList) := by
  rw [extractFromSse]
  cases finishing event with
  | error error => rfl
  | ok text => cases text with
    | none => rfl
    | some text => rfl

/-- Events that do not finish are only collected. -/
theorem extractFromSse_append {before : List (Json Str F)}
    (h : ∀ event ∈ before, finishing event = .ok none) (after : List (Json Str F))
    (last : Option (Fields F)) (deltas : List Str) :
    extractFromSse (before ++ after) last deltas =
      extractFromSse after (lastResponse before last)
        (deltas ++ before.filterMap responseDelta) := by
  induction before generalizing last deltas with
  | nil =>
      rw [List.filterMap_nil, List.append_nil]
      rfl
  | cons event before ih =>
      rw [List.forall_mem_cons] at h
      rw [List.cons_append, extractFromSse_cons, h.1]
      simp only
      rw [ih h.2, List.append_assoc, List.filterMap_cons]
      cases responseDelta event with
      | none => rfl
      | some delta => rfl

/-- Where the text comes from that is taken from the whole body. -/
inductive Carries (events : List (Json Str F)) (text : Json Str F) : Prop where
  /-- The first event that finishes has it. -/
  | finished (before : List (Json Str F)) (event : Json Str F) (after : List (Json Str F))
      (hsplit : events = before ++ event :: after)
      (hbefore : ∀ earlier ∈ before, finishing earlier = .ok none)
      (hevent : finishing event = .ok (some text))
  /-- No event finishes, and the deltas of the Responses API make it up. -/
  | deltas (hnone : ∀ event ∈ events, finishing event = .ok none)
      (hdeltas : events.filterMap responseDelta ≠ [])
      (htext : text = .str (events.filterMap responseDelta).flatten)
  /-- No event finishes and there is no such delta, and the last response has it. -/
  | response (hnone : ∀ event ∈ events, finishing event = .ok none)
      (hdeltas : events.filterMap responseDelta = []) (response : Fields F)
      (hlast : lastResponse events none = some response)
      (htext : extractOpenaiText response = .ok text)

/-- The first event that does not go on. -/
theorem first_finish (events : List (Json Str F)) :
    (∀ event ∈ events, finishing event = .ok none) ∨
      ∃ before event after, events = before ++ event :: after ∧
        (∀ earlier ∈ before, finishing earlier = .ok none) ∧ finishing event ≠ .ok none := by
  by_cases h : ∀ event ∈ events, finishing event = .ok none
  · exact Or.inl h
  · push Not at h
    obtain ⟨event, hevent, hfinish⟩ := h
    obtain ⟨before, event, after, hsplit, hbefore, hnot⟩ :=
      exists_first (P := fun event => finishing event = .ok none) hevent hfinish
    exact Or.inr ⟨before, event, after, hsplit, hbefore, hnot⟩

theorem extractFromSse_eq_ok {events : List (Json Str F)} {text : Json Str F}
    (htext : truthy text = true) :
    extractFromSse events none [] = .ok text ↔ Carries events text := by
  constructor
  · intro h
    rcases first_finish events with hnone | ⟨before, event, after, rfl, hbefore, hnot⟩
    · have hend := extractFromSse_append hnone [] none []
      rw [List.append_nil, h, List.nil_append, extractFromSse_nil] at hend
      split at hend
      · next hdeltas => exact .deltas hnone hdeltas (Except.ok.inj hend)
      · next hdeltas =>
          rw [not_not] at hdeltas
          split at hend
          · next response hlast => exact .response hnone hdeltas response hlast hend.symm
          · rw [Except.ok.inj hend] at htext
            cases htext
    · rw [extractFromSse_append hbefore, extractFromSse_cons] at h
      cases hfinish : finishing event with
      | error error =>
          rw [hfinish] at h
          cases h
      | ok found =>
          cases found with
          | none => exact absurd hfinish hnot
          | some found =>
              rw [hfinish] at h
              rw [Except.ok.inj h] at hfinish
              exact .finished before event after rfl hbefore hfinish
  · intro h
    cases h with
    | finished before event after hsplit hbefore hevent =>
        rw [hsplit, extractFromSse_append hbefore, extractFromSse_cons, hevent]
    | deltas hnone hdeltas hmade =>
        have hend := extractFromSse_append hnone [] none []
        rw [List.append_nil, List.nil_append, extractFromSse_nil, if_pos hdeltas] at hend
        rw [hend, hmade]
    | response hnone hdeltas response hlast hmade =>
        have hend := extractFromSse_append hnone [] none []
        rw [List.append_nil, List.nil_append, extractFromSse_nil, if_neg (not_not.mpr hdeltas)] at hend
        rw [hend, show lastResponse events none = some response from hlast]
        exact hmade

theorem flatten_fileLines (body : Str) : (fileLines body).flatten = body := by
  induction body with
  | nil => rfl
  | cons c rest ih =>
      rw [fileLines]
      split
      · next hnewline => rw [List.flatten_cons, ih, hnewline]; rfl
      · cases hlines : fileLines rest with
        | nil =>
            rw [hlines] at ih
            rw [← ih]
            rfl
        | cons line lines =>
            rw [hlines, List.flatten_cons] at ih
            rw [glue, List.flatten_cons, List.cons_append, ih]

theorem flatten_textParts {lines : List Str} : textParts F lines = [] ↔ (textParts F lines).flatten = [] := by
  constructor
  · intro h
    rw [h]
    rfl
  · intro h
    rw [List.flatten_eq_nil_iff] at h
    rw [List.eq_nil_iff_forall_not_mem]
    intro part hpart
    have hne := (List.mem_filter.mp hpart).2
    rw [decide_eq_true_eq] at hne
    exact hne (h part hpart)

theorem textParts_eq {lines : List Str} {all : List (Json Str F)} (h : events lines = all) :
    textParts F lines = (all.map deltaText).filter (· ≠ []) := by
  rw [textParts, h]

/-! ## When the readers agree -/

/-- The texts in the events of an OpenAI-style body are strings. -/
def OpenAIStyle (F : Type) [FiniteFloat F] (body : Str) : Prop :=
  ∀ event ∈ (events (splitlines body) : List (Json Str F)),
    (∀ text, finishing event = .ok (some text) → ∃ s, text = .str s) ∧
      ∀ response, responseOf event = some response →
        ∀ text, extractOpenaiText response = .ok text → ∃ s, text = .str s

omit [FiniteFloat F] in
theorem mem_lastResponse {events : List (Json Str F)} {response : Fields F}
    (h : lastResponse events none = some response) :
    ∃ event ∈ events, responseOf event = some response := by
  induction events using List.reverseRecOn with
  | nil => cases h
  | append_singleton events event ih =>
      rw [lastResponse, List.foldl_append, List.foldl_cons, List.foldl_nil, Option.or_eq_some_iff] at h
      rcases h with hhere | ⟨_, hbefore⟩
      · exact ⟨event, by simp, hhere⟩
      · obtain ⟨earlier, hearlier, hresponse⟩ := ih hbefore
        exact ⟨earlier, List.mem_append_left _ hearlier, hresponse⟩

theorem string_of_carries {body : Str} (h : OpenAIStyle F body) {text : Json Str F}
    (hcarries : Carries (events (splitlines body)) text) : ∃ s, text = .str s := by
  cases hcarries with
  | finished before event after hsplit hbefore hevent =>
      refine (h event ?_).1 text hevent
      rw [hsplit]
      exact List.mem_append_right _ List.mem_cons_self
  | deltas hnone hdeltas htext => exact ⟨_, htext⟩
  | response hnone hdeltas response hlast htext =>
      obtain ⟨event, hevent, hresponse⟩ := mem_lastResponse hlast
      exact (h event hevent).2 response hresponse text htext

theorem complete_eq_ok {body : Str} {text : Json Str F} :
    complete body = .ok text ↔ truthy text = true ∧ Carries (events (splitlines body)) text := by
  rw [complete]
  constructor
  · intro h
    cases hread : (extractFromSse (events (splitlines body)) none [] :
        Except ReadError (Json Str F)) with
    | error error =>
        rw [hread] at h
        cases h
    | ok found =>
        rw [hread] at h
        by_cases htruth : truthy found = true
        · have hsame : (.ok found : Except ReadError (Json Str F)) = .ok text := by
            simpa [bind, Except.bind, pure, Except.pure, htruth] using h
          obtain rfl := Except.ok.inj hsame
          exact ⟨htruth, (extractFromSse_eq_ok htruth).mp hread⟩
        · simp [bind, Except.bind, htruth] at h
  · rintro ⟨htruth, hcarries⟩
    rw [(extractFromSse_eq_ok htruth).mpr hcarries]
    simp [bind, Except.bind, pure, Except.pure, htruth]

theorem streamComplete_of_parts {lines : List Str} (h : textParts F lines ≠ []) :
    (streamComplete lines : List (Json Str F) × Except ReadError (Json Str F)) =
      ((textParts F lines).map Json.str, .ok (.str (textParts F lines).flatten)) := by
  rw [streamComplete, if_pos h]

omit [FiniteFloat F] in
theorem sameReading_ok {read : Except ReadError (Json Str F)} {text : Json Str F} :
    SameReading read (.ok text) ↔ read = .ok text := by
  constructor
  · intro h
    cases h
    rfl
  · rintro rfl
    exact .text text

/-- Without a delta that has text the whole body is read. -/
theorem agree_of_no_parts {body : Str} (h : OpenAIStyle F body)
    (hparts : textParts F (fileLines body) = []) : Agree F body := by
  rw [Agree, complete, streamComplete, if_neg (not_not.mpr hparts), flatten_fileLines]
  cases hread : (extractFromSse (events (splitlines body)) none [] :
      Except ReadError (Json Str F)) with
  | error error => exact .raised error error
  | ok text =>
      by_cases htruth : truthy text = true
      · obtain ⟨s, rfl⟩ := string_of_carries h ((extractFromSse_eq_ok htruth).mp hread)
        simpa [bind, Except.bind, pure, Except.pure, htruth] using SameReading.text (.str s)
      · simpa [bind, Except.bind, htruth] using SameReading.raised .noText .noText

/-- The two readers agree exactly when no delta has text, or when the text of the deltas is
what the other reader takes from the body. -/
theorem readers_agree_iff {body : Str} (h : OpenAIStyle F body) :
    Agree F body ↔ textParts F (fileLines body) = [] ∨
      Carries (events (splitlines body) : List (Json Str F))
        (.str (textParts F (fileLines body)).flatten) := by
  by_cases hparts : textParts F (fileLines body) = []
  · exact iff_of_true (agree_of_no_parts h hparts) (Or.inl hparts)
  · have htruth : truthy (.str (textParts F (fileLines body)).flatten : Json Str F) = true := by
      rw [truthy, decide_eq_true_eq]
      exact fun hnil => hparts (flatten_textParts.mpr hnil)
    rw [or_iff_right hparts, Agree, streamComplete_of_parts hparts, sameReading_ok, complete_eq_ok,
      and_iff_right htruth]

/-! ## Bodies of whole events -/

/-- An event as it is sent, with the blank line after it. -/
def eventLine (event : Fields F) : Str :=
  dataField ++ ' ' :: dumps (.obj event) ++ ['\n', '\n']

theorem strip_blank {c : Char} {l : Str} (hc : isSpace c = false) (b : Char)
    (hb : isSpace b = true) : stripList isSpace (c :: l ++ [b]) = stripList isSpace (c :: l) := by
  rw [stripList, stripList, List.cons_append, List.dropWhile_cons_of_neg (by rw [hc]; decide),
    List.dropWhile_cons_of_neg (by rw [hc]; decide), ← List.cons_append,
    List.rdropWhile_concat_pos _ _ _ hb]

theorem strip_payload (event : Fields F) :
    stripList isSpace (' ' :: dumps (.obj event)) = dumps (.obj event) := by
  have hstrip := strip_dumpsWith_obj .plain event
  rw [dumpsWith_plain] at hstrip
  rw [stripList, List.dropWhile_cons_of_pos (by decide)]
  exact hstrip

theorem strip_line (event : Fields F) :
    stripList isSpace (dataField ++ ' ' :: dumps (.obj event)) =
      dataField ++ ' ' :: dumps (.obj event) := by
  apply stripList_of_ends
  · intro c hc
    cases hc
    rfl
  · obtain ⟨init, hinit⟩ := dumpsWith_obj_last .plain event
    rw [dumpsWith_plain] at hinit
    rw [hinit, ← List.cons_append, ← List.append_assoc, List.getLast?_concat]
    intro c hc
    cases hc
    rfl

theorem decodeSseEvent_line {event : Fields F} (h : (Json.obj event).Representable) {line : Str}
    (hline : stripList isSpace line = dataField ++ ' ' :: dumps (.obj event)) :
    decodeSseEvent line = some (.obj event) := by
  obtain ⟨tail, hhead⟩ := dumpsWith_obj_head .plain event
  rw [dumpsWith_plain] at hhead
  have hstart : dataField <+: stripList isSpace line :=
    ⟨' ' :: dumps (.obj event), hline.symm⟩
  have hpayload : stripList isSpace ((stripList isSpace line).drop dataField.length) =
      dumps (.obj event) := by
    rw [hline, List.drop_left]
    exact strip_payload event
  have hmark : ¬ (dumps (.obj event) = [] ∨ dumps (.obj event) = "[DONE]".toList) := by
    rw [hhead]
    rintro (hnil | hdone)
    · cases hnil
    · exact absurd (List.cons.inj hdone).1 (by decide)
  rw [decodeSseEvent]
  simp only [hstart, if_true, hpayload]
  rw [if_neg hmark]
  exact loads_dumps h

theorem decodeSseEvent_blank {line : Str} (h : line = [] ∨ line = ['\n']) :
    (decodeSseEvent line : Option (Json Str F)) = none := by
  rcases h with rfl | rfl
  · rfl
  · rfl

theorem fileLines_line {line : Str} (h : '\n' ∉ line) (rest : Str) :
    fileLines (line ++ '\n' :: rest) = (line ++ ['\n']) :: fileLines rest := by
  induction line with
  | nil => rfl
  | cons c line ih =>
      rw [List.mem_cons, not_or] at h
      rw [List.cons_append, fileLines, if_neg (Ne.symm h.1), ih h.2]
      rfl

/-- In a body of whole events without separators both readers see the events. -/
theorem events_body {all : List (Fields F)} (hrep : ∀ event ∈ all, (Json.obj event).Representable)
    (hsep : ∀ event ∈ all, (Json.obj event).Separated) :
    events (splitlines (all.flatMap eventLine)) = all.map Json.obj ∧
      events (fileLines (all.flatMap eventLine)) = all.map Json.obj := by
  induction all with
  | nil => exact ⟨rfl, rfl⟩
  | cons event all ih =>
      rw [List.forall_mem_cons] at hrep hsep
      obtain ⟨hwhole, hlines⟩ := ih hrep.2 hsep.2
      have hbreak : ∀ c ∈ dataField ++ ' ' :: dumps (.obj event), isLineBreak c = false := by
        have hfield : ∀ c ∈ dataField, isLineBreak c = false := by decide
        rw [List.forall_mem_append, List.forall_mem_cons]
        exact ⟨hfield, by decide, (one_line_iff _).mpr hsep.1⟩
      have hnewline : '\n' ∉ dataField ++ ' ' :: dumps (.obj event) := by
        intro hmem
        exact absurd (hbreak _ hmem) (by decide)
      have hbody : (event :: all).flatMap eventLine =
          (dataField ++ ' ' :: dumps (.obj event)) ++ '\n' :: ('\n' :: all.flatMap eventLine) := by
        rw [List.flatMap_cons, eventLine]
        simp
      constructor
      · rw [hbody, splitlines_line hbreak (by decide) (by decide),
          splitlines_break (by decide) (by decide), events,
          List.filterMap_cons_some (decodeSseEvent_line hrep.1 (strip_line event)),
          List.filterMap_cons_none (decodeSseEvent_blank (Or.inl rfl))]
        exact congrArg _ hwhole
      · have hstrip : stripList isSpace (dataField ++ ' ' :: dumps (.obj event) ++ ['\n']) =
            dataField ++ ' ' :: dumps (.obj event) :=
          (strip_blank (by decide) '\n' (by decide)).trans (strip_line event)
        have hblank := @fileLines_line [] List.not_mem_nil (all.flatMap eventLine)
        rw [List.nil_append, List.nil_append] at hblank
        rw [hbody, fileLines_line hnewline, hblank, events,
          List.filterMap_cons_some (decodeSseEvent_line hrep.1 hstrip),
          List.filterMap_cons_none (decodeSseEvent_blank (Or.inr rfl))]
        exact congrArg _ hlines

/-! ## The parts of a response -/

def deltaEvent (delta : Str) : Fields F :=
  [("type".toList, .str "response.output_text.delta".toList), ("delta".toList, .str delta)]

def doneEvent (text : Str) : Fields F :=
  [("type".toList, .str "response.output_text.done".toList), ("text".toList, .str text)]

/-- The events of a response with these output parts. -/
def partEvents (parts : List Str) : List (Fields F) :=
  parts.flatMap fun text => [deltaEvent text, doneEvent text]

/-- The names in these events differ, and no separator is in them. -/
theorem event_names :
    (∀ name ∈ ["response".toList, "choices".toList, "delta".toList, "text".toList],
        name ≠ "type".toList) ∧
      (∀ name ∈ ["response".toList, "choices".toList],
        name ≠ "delta".toList ∧ name ≠ "text".toList) ∧
      "response.output_text.done".toList ≠ "response.output_text.delta".toList ∧
      ∀ s ∈ ["type".toList, "delta".toList, "text".toList, "response.output_text.delta".toList,
        "response.output_text.done".toList], ∀ c ∈ s, isSeparator c = false := by
  decide +kernel

omit [FiniteFloat F] in
theorem lookup_other {name key : Str} (h : name ≠ key) (value : Json Str F) (rest : Fields F) :
    ((key, value) :: rest).lookup name = rest.lookup name := by
  rw [List.lookup_cons, beq_false_of_ne h]

omit [FiniteFloat F] in
theorem lookup_two {name key key' : Str} (h : name ≠ key) (h' : name ≠ key')
    (value value' : Json Str F) : [(key, value), (key', value')].lookup name = none := by
  rw [lookup_other h, lookup_other h', List.lookup_nil]

omit [FiniteFloat F] in
theorem responseOf_deltaEvent (delta : Str) : responseOf (.obj (deltaEvent delta : Fields F)) = none := by
  have hname := (event_names.2.1 "response".toList (by simp)).1
  rw [responseOf, deltaEvent, lookup_two (event_names.1 _ (by simp)) hname]

omit [FiniteFloat F] in
theorem responseOf_doneEvent (text : Str) : responseOf (.obj (doneEvent text : Fields F)) = none := by
  have hname := (event_names.2.1 "response".toList (by simp)).2
  rw [responseOf, doneEvent, lookup_two (event_names.1 _ (by simp)) hname]

omit [FiniteFloat F] in
theorem hasType_deltaEvent (delta : Str) :
    hasType (deltaEvent delta : Fields F) "response.output_text.delta" = true := by
  rw [hasType, deltaEvent, List.lookup_cons_self]
  exact decide_eq_true rfl

omit [FiniteFloat F] in
theorem hasType_doneEvent (text : Str) :
    hasType (doneEvent text : Fields F) "response.output_text.done" = true := by
  rw [hasType, doneEvent, List.lookup_cons_self]
  exact decide_eq_true rfl

omit [FiniteFloat F] in
theorem not_hasType_doneEvent (text : Str) :
    hasType (doneEvent text : Fields F) "response.output_text.delta" = false := by
  rw [hasType, doneEvent, List.lookup_cons_self]
  exact decide_eq_false event_names.2.2.1

theorem finishing_deltaEvent (delta : Str) :
    finishing (.obj (deltaEvent delta : Fields F)) = .ok none := by
  rw [finishing, responseOf_deltaEvent, hasType_deltaEvent]
  rfl

theorem finishing_doneEvent {text : Str} (h : text ≠ []) :
    finishing (.obj (doneEvent text : Fields F)) = .ok (some (.str text)) := by
  have hlookup : (doneEvent text : Fields F).lookup "text".toList = some (.str text) := by
    rw [doneEvent, lookup_other (event_names.1 _ (by simp)), List.lookup_cons_self]
  rw [finishing, responseOf_doneEvent, not_hasType_doneEvent, hasType_doneEvent, hlookup]
  simp only [pure_bind, truthy, ne_eq, not_true_eq_false, decide_false, Bool.false_eq_true, if_false,
    if_true, h]
  rfl

omit [FiniteFloat F] in
theorem deltaText_deltaEvent (delta : Str) : deltaText (.obj (deltaEvent delta : Fields F)) = delta := by
  have hlookup : (deltaEvent delta : Fields F).lookup "delta".toList = some (.str delta) := by
    rw [deltaEvent, lookup_other (event_names.1 _ (by simp)), List.lookup_cons_self]
  rw [deltaText, if_pos (hasType_deltaEvent delta), responseDelta, if_pos (hasType_deltaEvent delta),
    hlookup]
  rfl

omit [FiniteFloat F] in
theorem deltaText_doneEvent (text : Str) : deltaText (.obj (doneEvent text : Fields F)) = [] := by
  have hname := (event_names.2.1 "choices".toList (by simp)).2
  rw [deltaText, not_hasType_doneEvent, if_neg Bool.false_ne_true, chunkContent, doneEvent,
    lookup_two (event_names.1 _ (by simp)) hname]

omit [FiniteFloat F] in
theorem mem_partEvents {parts : List Str} {event : Fields F} (h : event ∈ partEvents parts) :
    ∃ text ∈ parts, event = deltaEvent text ∨ event = doneEvent text := by
  obtain ⟨text, htext, hevent⟩ := List.mem_flatMap.mp h
  exact ⟨text, htext, by simpa using hevent⟩

omit [FiniteFloat F] in
/-- An event of two strings is whole. -/
theorem whole_two {key value key' value' : Str} (hne : key ≠ key')
    (h : ∀ s ∈ [key, value, key', value'], ∀ c ∈ s, isSeparator c = false) :
    (Json.obj [(key, .str value), (key', .str value')] : Json Str F).Representable ∧
      (Json.obj [(key, .str value), (key', .str value')] : Json Str F).Separated := by
  refine ⟨⟨by simp [hne], trivial, trivial, trivial⟩, ?_⟩
  intro s hs
  apply h s
  simpa only [Json.texts, Json.textsFields, List.singleton_append, List.append_nil] using hs

/-- A body of parts without separators has the events of the parts. -/
theorem events_parts {parts : List Str} (h : ∀ text ∈ parts, ∀ c ∈ text, isSeparator c = false) :
    events (splitlines ((partEvents parts : List (Fields F)).flatMap eventLine)) =
        (partEvents parts : List (Fields F)).map Json.obj ∧
      events (fileLines ((partEvents parts : List (Fields F)).flatMap eventLine)) =
        (partEvents parts : List (Fields F)).map Json.obj := by
  have hnames := event_names.2.2.2
  have hwhole : ∀ event ∈ (partEvents parts : List (Fields F)),
      (Json.obj event).Representable ∧ (Json.obj event).Separated := by
    intro event hevent
    obtain ⟨text, htext, rfl | rfl⟩ := mem_partEvents hevent
    · exact whole_two (event_names.1 _ (by simp)).symm (by
        simp only [List.forall_mem_cons] at hnames ⊢
        exact ⟨hnames.1, hnames.2.2.2.1, hnames.2.1, h text htext, by simp⟩)
    · exact whole_two (event_names.1 _ (by simp)).symm (by
        simp only [List.forall_mem_cons] at hnames ⊢
        exact ⟨hnames.1, hnames.2.2.2.2.1, hnames.2.2.1, h text htext, by simp⟩)
  exact events_body (fun event hevent => (hwhole event hevent).1) fun event hevent =>
    (hwhole event hevent).2

/-- The deltas of such a body are the parts. -/
theorem textParts_parts {parts : List Str} (h : ∀ text ∈ parts, ∀ c ∈ text, isSeparator c = false)
    (hne : ∀ text ∈ parts, text ≠ []) :
    textParts F (fileLines ((partEvents parts : List (Fields F)).flatMap eventLine)) = parts := by
  rw [textParts_eq (events_parts h).2]
  clear h
  induction parts with
  | nil => rfl
  | cons text parts ih =>
      rw [List.forall_mem_cons] at hne
      have hrest := ih hne.2
      have hsplit : (partEvents (text :: parts) : List (Fields F)) =
          deltaEvent text :: doneEvent text :: partEvents parts := rfl
      rw [hsplit, List.map_cons, List.map_cons, List.map_cons, List.map_cons, deltaText_deltaEvent,
        deltaText_doneEvent, List.filter_cons, if_pos (decide_eq_true hne.1), List.filter_cons,
        if_neg (by simp), hrest]

/-- Of a body of parts the first one finishes the text. -/
theorem carries_parts {first : Str} {parts : List Str}
    (h : ∀ text ∈ first :: parts, ∀ c ∈ text, isSeparator c = false) (hne : first ≠ []) :
    Carries (events (splitlines ((partEvents (first :: parts) : List (Fields F)).flatMap eventLine)))
      (.str first : Json Str F) := by
  rw [(events_parts h).1, partEvents, List.flatMap_cons, ← partEvents]
  exact .finished [.obj (deltaEvent first)] (.obj (doneEvent first)) _ rfl
    (List.forall_mem_singleton.mpr (finishing_deltaEvent first)) (finishing_doneEvent hne)

theorem style_parts {parts : List Str} (h : ∀ text ∈ parts, ∀ c ∈ text, isSeparator c = false)
    (hne : ∀ text ∈ parts, text ≠ []) :
    OpenAIStyle F ((partEvents parts : List (Fields F)).flatMap eventLine) := by
  intro event hevent
  rw [(events_parts h).1] at hevent
  obtain ⟨fields, hfields, rfl⟩ := List.mem_map.mp hevent
  obtain ⟨text, htext, rfl | rfl⟩ := mem_partEvents hfields
  · constructor
    · intro found hfound
      rw [finishing_deltaEvent] at hfound
      cases hfound
    · intro response hresponse
      rw [responseOf_deltaEvent] at hresponse
      cases hresponse
  · constructor
    · intro found hfound
      rw [finishing_doneEvent (hne text htext)] at hfound
      cases hfound
      exact ⟨text, rfl⟩
    · intro response hresponse
      rw [responseOf_doneEvent] at hresponse
      cases hresponse

/-- Where the whole body carries a text, the readers agree exactly when the deltas make
it up. -/
theorem agree_iff_of_carries {body : Str} {text : Str} (hne : text ≠ [])
    (hcarries : Carries (events (splitlines body) : List (Json Str F)) (.str text))
    (hparts : textParts F (fileLines body) ≠ []) :
    Agree F body ↔ text = (textParts F (fileLines body)).flatten := by
  have hcomplete : complete body = (.ok (.str text) : Except ReadError (Json Str F)) :=
    complete_eq_ok.mpr ⟨decide_eq_true hne, hcarries⟩
  rw [Agree, hcomplete, streamComplete_of_parts hparts, sameReading_ok, Except.ok.injEq,
    Json.str.injEq]

/-- The readers agree on a response of parts exactly when it has only one. -/
theorem parts_agree_iff {first : Str} {parts : List Str}
    (h : ∀ text ∈ first :: parts, ∀ c ∈ text, isSeparator c = false)
    (hne : ∀ text ∈ first :: parts, text ≠ []) :
    Agree F ((partEvents (first :: parts) : List (Fields F)).flatMap eventLine) ↔ parts = [] := by
  have hfirst := hne first List.mem_cons_self
  have hparts := @textParts_parts F _ _ h hne
  rw [agree_iff_of_carries hfirst (carries_parts h hfirst)
    (by rw [hparts]; exact List.cons_ne_nil _ _), hparts]
  constructor
  · intro hsame
    have hrest : parts.flatten = [] := by
      simpa using hsame
    rw [List.flatten_eq_nil_iff] at hrest
    exact List.eq_nil_iff_forall_not_mem.mpr fun text htext =>
      hne text (List.mem_cons_of_mem _ htext) (hrest text htext)
  · rintro rfl
    exact List.flatten_singleton.symm

theorem greeting_plain : ∀ text ∈ [['H', 'i'], [' ', 't', 'h', 'e', 'r', 'e']],
    (∀ c ∈ text, isSeparator c = false) ∧ text ≠ [] := by
  decide

/-- The text of one part is the same for both. -/
theorem one_part_agrees :
    Agree Empty ((partEvents [['H', 'i']] : List (Fields Empty)).flatMap eventLine) := by
  have hplain := greeting_plain _ List.mem_cons_self
  have hseparated : ∀ text ∈ [['H', 'i']], ∀ c ∈ text, isSeparator c = false :=
    List.forall_mem_singleton.mpr hplain.1
  have hne : ∀ text ∈ [['H', 'i']], text ≠ [] := List.forall_mem_singleton.mpr hplain.2
  have hparts := @textParts_parts Empty _ _ hseparated hne
  have hcarries := @carries_parts Empty _ _ _ hseparated (hne _ List.mem_cons_self)
  refine (readers_agree_iff (@style_parts Empty _ _ hseparated hne)).mpr (Or.inr ?_)
  rw [hparts]
  exact hcarries

/-- Of two parts `complete` returns the first. -/
theorem second_part_lost : ¬ ∀ body, OpenAIStyle Empty body → Agree Empty body := by
  intro h
  have hseparated := fun text htext => (greeting_plain text htext).1
  have hne := fun text htext => (greeting_plain text htext).2
  have hagree := h _ (@style_parts Empty _ _ hseparated hne)
  exact List.cons_ne_nil _ _ ((@parts_agree_iff Empty _ _ _ hseparated hne).mp hagree)

end Models
end CodeCub

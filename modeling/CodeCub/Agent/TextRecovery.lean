import CodeCub.Agent.ArgumentSchema
import CodeCub.Agent.XmlCalls
import CodeCub.Python.Occurrences

/-!
# Calls recovered from text

A provider with native tools may still answer with the text of one call.  The adapter of the
loop and `Pico` each have a recogniser for it, stricter than the text protocol and nearly the
same as each other: they differ in what they hold the arguments against.
-/

namespace CodeCub
namespace Agent

open Python

inductive TextRecovery where
  | call (name : Text) (args : JsonFields)
  /-- `(None, reason)`; a text without tags has no reason. -/
  | rejected (reason : Option String)
  /-- An exception that nobody catches. -/
  | raises

/-- What both recognisers ask of the runtime.  `checks` is what `validate_tool` of
`codecub/tools.py` checks by the name of the tool, of paths and ranges and the like. -/
structure ToolRuntime where
  tools : Text → Option ToolSpec
  checks : Text → JsonFields → Bool
  depth : Nat
  maxDepth : Nat

/-! ## The envelope -/

/-- `\s*</tool>\s*` and the end of the text. -/
def closesHere (text : Text) : Bool :=
  (closeTag toolName).isPrefixOf (text.dropWhile isSpace) &&
    ((text.dropWhile isSpace).drop (closeTag toolName).length).all isSpace

/-- The lazy `.*?` before it. -/
def shortestBody : Text → Option Text
  | [] => none
  | c :: rest => if closesHere (c :: rest) then some [] else (shortestBody rest).map (c :: ·)

/-- `re.fullmatch(r"\s*<tool>\s*(?P<body>.*?)\s*</tool>\s*", text, re.S)`. -/
def matchEnvelope (text : Text) : Option Text :=
  let text := text.dropWhile isSpace
  if (openTag toolName).isPrefixOf text then
    shortestBody ((text.drop (openTag toolName).length).dropWhile isSpace)
  else none

/-- The keys are `name` and `args`, as sets. -/
def isEnvelopePayload (payload : JsonFields) : Bool :=
  (payload.lookup nameKey).isSome && (payload.lookup argsKey).isSome &&
    payload.all fun field => field.1 = nameKey || field.1 = argsKey

/-- The part that both recognisers share: one envelope and nothing else in the text. -/
def readEnvelope (loads : Text → Option Json) (text : Text) :
    Except (Option String) (Text × JsonFields) :=
  let opening := count toolStart text
  let closing := count (closeTag toolName) text
  if 1 < opening then .error (some "multiple_open_tags")
  else if 1 < closing then .error (some "multiple_close_tags")
  else if opening = 0 ∧ closing = 1 then .error (some "missing_opening_tag")
  else if opening = 1 ∧ closing = 0 then .error (some "missing_closing_tag")
  else if opening = 0 then .error none
  else
    match matchEnvelope text with
    | none => .error (some "ambiguous_content")
    | some body =>
        match loads body with
        | none => .error (some "malformed_json")
        | some (.obj payload) =>
            if isEnvelopePayload payload then
              match payload.lookup nameKey, payload.lookup argsKey with
              | some (.str name), some args =>
                  if stripText name = [] then .error (some "schema_failure")
                  else
                    match args with
                    | .obj args => .ok (stripText name, args)
                    | _ => .error (some "invalid_args")
              | _, _ => .error (some "schema_failure")
            else .error (some "schema_failure")
        | some _ => .error (some "schema_failure")

/-! ## The two recognisers -/

def isMcp (name : Text) : Bool := "mcp_".toList.isPrefixOf name

namespace ToolRuntime

variable (rt : ToolRuntime) (py : Interpreter)

/-- `_RuntimeToolValidation.validate`. -/
def validate (name : Text) (args : JsonFields) (tool : ToolSpec) : Bool :=
  rt.checks name args && (!isMcp name || py.schemaOk tool args)

/-- `Pico.validate_tool`. -/
def validateTool (name : Text) (args : JsonFields) (tool : ToolSpec) : Bool :=
  (!isMcp name || py.schemaOk tool args) && rt.checks name args &&
    (name ≠ delegateName || rt.depth < rt.maxDepth)

/-- `LegacyContextAdapter.recover_native_text_tool_call`. -/
def recoverNativeTextToolCall (loads : Text → Option Json) (content : Text) : TextRecovery :=
  match readEnvelope loads content with
  | .error reason => .rejected reason
  | .ok (name, args) =>
      match rt.tools name with
      | none => .rejected (some "unknown_tool")
      | some tool =>
          if flatOk tool.schema args then
            if rt.validate py name args tool then .call name args else .rejected (some "invalid_args")
          else .rejected (some "schema_failure")

/-- What `Pico` holds the arguments against: the schema where there is one. -/
def declaredCheck (tool : ToolSpec) (args : JsonFields) : Except RaisedError Unit :=
  match tool.parameters with
  | some (.obj _) => py.validateJsonToolArguments tool args
  | _ => if flatOk tool.schema args then .ok () else .error .valueError

/-- `Pico._recover_native_text_tool_call`. -/
def picoRecoverNativeTextToolCall (loads : Text → Option Json) (content : Text) : TextRecovery :=
  match readEnvelope loads content with
  | .error reason => .rejected reason
  | .ok (name, args) =>
      match rt.tools name with
      | none => .rejected (some "unknown_tool")
      | some tool =>
          match declaredCheck py tool args with
          | .ok () =>
              if rt.validateTool py name args tool then .call name args
              else .rejected (some "invalid_args")
          | .error .valueError => .rejected (some "schema_failure")
          | .error .typeError => .raises

end ToolRuntime

/-! ## What an envelope is -/

theorem closesHere_cons_of_space {c : Char} {rest : Text} (hc : isSpace c = true) :
    closesHere (c :: rest) = closesHere rest := by
  unfold closesHere
  rw [List.dropWhile_cons_of_pos hc]

/-- Blanks, the closing tag and blanks. -/
theorem closesHere_spec {text : Text} (h : closesHere text = true) :
    ∃ before after, text = before ++ (closeTag toolName ++ after) ∧
      (∀ c ∈ before, isSpace c = true) ∧ ∀ c ∈ after, isSpace c = true := by
  unfold closesHere at h
  rw [Bool.and_eq_true, List.isPrefixOf_iff_prefix, List.all_eq_true] at h
  obtain ⟨after, hafter⟩ := h.1
  refine ⟨text.takeWhile isSpace, after, ?_, fun c hc => List.mem_takeWhile_imp hc, ?_⟩
  · rw [hafter, List.takeWhile_append_dropWhile]
  · rw [← hafter, List.drop_left] at h
    exact h.2

theorem shortestBody_spec {text body : Text} (h : shortestBody text = some body) :
    ∃ before after, text = body ++ (before ++ (closeTag toolName ++ after)) ∧
      (∀ c ∈ before, isSpace c = true) ∧ (∀ c ∈ after, isSpace c = true) ∧
      ∀ c ∈ body.getLast?, isSpace c = false := by
  induction text generalizing body with
  | nil => cases h
  | cons c rest ih =>
      unfold shortestBody at h
      split at h
      · next hcloses =>
          obtain rfl := Option.some.inj h
          obtain ⟨before, after, htext, hbefore, hafter⟩ := closesHere_spec hcloses
          exact ⟨before, after, htext, hbefore, hafter, fun d hd => by cases hd⟩
      · next hopen =>
          obtain ⟨found, hfound, rfl⟩ := Option.map_eq_some_iff.mp h
          obtain ⟨before, after, htext, hbefore, hafter, hlast⟩ := ih hfound
          refine ⟨before, after, by rw [htext, List.cons_append], hbefore, hafter, ?_⟩
          cases found with
          | nil =>
              -- a blank would have been taken by the white space in front of the closing tag
              intro d hd
              obtain rfl : c = d := Option.some.inj hd
              by_contra hspace
              rw [Bool.not_eq_false] at hspace
              apply hopen
              rw [closesHere_cons_of_space hspace]
              cases rest with
              | nil => cases hfound
              | cons e more =>
                  unfold shortestBody at hfound
                  split at hfound
                  · assumption
                  · obtain ⟨_, _, hcons⟩ := Option.map_eq_some_iff.mp hfound
                    cases hcons
          | cons d found => exact fun e he => hlast e he

/-- What is found has no blanks around it. -/
theorem matchEnvelope_spec {text body : Text} (h : matchEnvelope text = some body) :
    ∃ before inner after, text = before ++ (openTag toolName ++ (inner ++
        (closeTag toolName ++ after))) ∧
      (∀ c ∈ before, isSpace c = true) ∧ stripText inner = body := by
  unfold matchEnvelope at h
  dsimp only at h
  split at h
  · next hopen =>
      rw [List.isPrefixOf_iff_prefix] at hopen
      obtain ⟨rest, hrest⟩ := hopen
      rw [← hrest, List.drop_left] at h
      obtain ⟨blanks, after, hbody, hblanks, hafter, hlast⟩ := shortestBody_spec h
      refine ⟨text.takeWhile isSpace, rest.takeWhile isSpace ++ (body ++ blanks), after, ?_,
        fun c hc => List.mem_takeWhile_imp hc, ?_⟩
      · rw [List.append_assoc, List.append_assoc, ← hbody, List.takeWhile_append_dropWhile, hrest,
          List.takeWhile_append_dropWhile]
      · have hhead : ∀ c ∈ body.head?, isSpace c = false := by
          intro c hc
          cases body with
          | nil => cases hc
          | cons d body =>
              obtain rfl : d = c := Option.some.inj hc
              have hfront : rest.dropWhile isSpace = d :: (body ++ (blanks ++
                (closeTag toolName ++ after))) := hbody
              have hpos : 0 < (rest.dropWhile isSpace).length := by
                rw [hfront]
                exact Nat.succ_pos _
              have hfirst := List.dropWhile_get_zero_not isSpace rest hpos
              simp only [hfront, List.get_eq_getElem, List.getElem_cons_zero,
                Bool.not_eq_true] at hfirst
              exact hfirst
        exact stripList_padded (fun c hc => List.mem_takeWhile_imp hc) hblanks
          (stripList_of_ends hhead hlast)
  · cases h

variable {loads : Text → Option Json} {text name : Text} {args : JsonFields}

/-- An envelope that was read: one closing tag, and a payload with a name and arguments. -/
structure Enveloped (loads : Text → Option Json) (text name : Text) (args : JsonFields) : Prop where
  closing : count (closeTag toolName) text = 1
  payload : ∃ body payload given, matchEnvelope text = some body ∧
    loads body = some (.obj payload) ∧ payload.lookup nameKey = some (.str given) ∧
    payload.lookup argsKey = some (.obj args) ∧ stripText given = name ∧
    isEnvelopePayload payload = true
  name_ne : name ≠ []

theorem enveloped_of_readEnvelope (h : readEnvelope loads text = .ok (name, args)) :
    Enveloped loads text name args := by
  unfold readEnvelope at h
  dsimp only at h
  split at h
  · cases h
  split at h
  · cases h
  split at h
  · cases h
  split at h
  · cases h
  split at h
  · cases h
  next hopening hclosing _ hmissing hnone =>
  split at h
  · cases h
  next body hbody =>
  split at h
  · cases h
  · next payload hpayload =>
      split at h
      · next hkeys =>
          split at h
          · next given value hname hargs =>
              split at h
              · cases h
              · next hne =>
                  split at h
                  · next fields =>
                      cases h
                      refine ⟨?_, ⟨body, payload, given, hbody, hpayload, hname, hargs, rfl, hkeys⟩,
                        hne⟩
                      rw [not_and] at hmissing
                      have hone := hmissing (by omega)
                      omega
                  · cases h
          · cases h
      · cases h
  · cases h

/-! ## The text protocol on an envelope -/

theorem bracket_not_mem_blanks {before : Text} (h : ∀ c ∈ before, isSpace c = true) :
    '<' ∉ before := by
  intro hmem
  have hspace := h '<' hmem
  revert hspace
  decide

theorem isTag_closeTool : IsTag (closeTag toolName) := isTag_closeTag (by decide)

/-- The closing tag that is counted once is the first one. -/
theorem find_closeTool_of_count {before inner after : Text}
    (h : count (closeTag toolName) (before ++ (inner ++ (closeTag toolName ++ after))) = 1) :
    find (closeTag toolName) (inner ++ (closeTag toolName ++ after)) = some inner.length := by
  obtain ⟨first, -, hclustered⟩ := (count_eq_one_iff isTag_closeTool.ne_nil).mp h
  have hlast : Occurs (closeTag toolName) (inner ++ (closeTag toolName ++ after)) inner.length := by
    unfold Occurs
    rw [List.drop_left]
    exact List.prefix_append _ _
  refine find_eq_some_iff.mpr ⟨hlast, fun i hi hoccurs => ?_⟩
  have hinner : Occurs (closeTag toolName) inner i := isTag_closeTool.occurs_of_lt hoccurs hi
  have hfits := hinner.length_le isTag_closeTool.ne_nil
  have hearly := hclustered _ ((occurs_append_right before).mpr hoccurs)
  have hlate := hclustered _ ((occurs_append_right before).mpr hlast)
  omega

theorem find_openTool_of_blanks {before : Text} (h : ∀ c ∈ before, isSpace c = true) (rest : Text) :
    find (openTag toolName) (before ++ (openTag toolName ++ rest)) = some before.length := by
  have htag : IsTag (openTag toolName) := isTag_openTag (by decide)
  refine find_eq_some_iff.mpr ⟨?_, fun i hi hoccurs => ?_⟩
  · unfold Occurs
    rw [List.drop_left]
    exact List.prefix_append _ _
  · have hbefore := (htag.occurs_of_lt hoccurs hi)
    obtain ⟨tail, htail⟩ := hbefore
    have hbracket : '<' ∈ before.drop i := by
      rw [← htail]
      exact List.mem_append_left _ List.mem_cons_self
    exact bracket_not_mem_blanks h (List.mem_of_mem_drop hbracket)

theorem beforeFinal_of_blanks {before : Text} (h : ∀ c ∈ before, isSpace c = true) (rest : Text) :
    beforeFinal (openTag toolName) (before ++ (openTag toolName ++ rest)) = true := by
  have htag : IsTag (openTag finalName) := isTag_openTag (by decide)
  unfold beforeFinal
  rw [find_openTool_of_blanks h]
  cases hfinal : find (openTag finalName) (before ++ (openTag toolName ++ rest)) with
  | none => rfl
  | some final =>
      refine decide_eq_true ?_
      have hoccurs := (find_eq_some_iff.mp hfinal).1
      by_contra hle
      rcases Nat.lt_or_eq_of_le (Nat.not_lt.mp hle) with hlt | heq
      · obtain ⟨tail, htail⟩ := htag.occurs_of_lt hoccurs hlt
        have hbracket : '<' ∈ before.drop final := by
          rw [← htail]
          exact List.mem_append_left _ List.mem_cons_self
        exact bracket_not_mem_blanks h (List.mem_of_mem_drop hbracket)
      · -- the two tags differ in their second characters
        unfold Occurs at hoccurs
        rw [heq, List.drop_left] at hoccurs
        have hsecond := (List.cons_prefix_cons.mp (List.cons_prefix_cons.mp hoccurs).2).1
        revert hsecond
        decide

/-- What the text protocol takes for the JSON is the body of the envelope. -/
theorem extract_envelope {body : Text} (hclosing : count (closeTag toolName) text = 1)
    (h : matchEnvelope text = some body) :
    beforeFinal (openTag toolName) text = true ∧ extract text toolName false = body := by
  obtain ⟨before, inner, after, rfl, hbefore, hbody⟩ := matchEnvelope_spec h
  refine ⟨beforeFinal_of_blanks hbefore _, ?_⟩
  have hinner : (before ++ (openTag toolName ++ (inner ++ (closeTag toolName ++ after)))).drop
      (before.length + (openTag toolName).length) = inner ++ (closeTag toolName ++ after) := by
    rw [← List.drop_drop, List.drop_left, List.drop_left]
  have hfind : find (closeTag toolName) (inner ++ (closeTag toolName ++ after)) =
      some inner.length := by
    rw [← List.append_assoc] at hclosing
    exact find_closeTool_of_count hclosing
  unfold extract
  rw [find_openTool_of_blanks hbefore]
  dsimp only
  rw [hinner, if_neg Bool.false_ne_true]
  unfold inside
  rw [hfind]
  dsimp only
  rw [List.take_left]
  exact hbody

/-- A reply that is this call, its name perhaps between blanks. -/
def IsTextCall (name : Text) (args : JsonFields) (reply : Reply) : Prop :=
  ∃ payload given, reply = .tool payload ∧ payload.lookup nameKey = some (.str given) ∧
    stripText given = name ∧ payload.lookup argsKey = some (.obj args)

theorem parseModelResponse_of_enveloped (h : Enveloped loads text name args) :
    IsTextCall name args (parseModelResponse loads text) := by
  obtain ⟨body, payload, given, hbody, hloads, hname, hargs, hgiven, -⟩ := h.payload
  obtain ⟨hfinal, hextract⟩ := extract_envelope h.closing hbody
  have haccept : acceptPayload (some (.obj payload)) = .tool payload := by
    unfold acceptPayload
    dsimp only
    rw [hname, Option.map_some, Option.getD_some]
    have hvisible : ¬ Json.blank (.str given) = true := by
      show ¬ (stripText given).isEmpty = true
      rw [hgiven, List.isEmpty_iff]
      exact h.name_ne
    rw [if_neg hvisible, hargs]
  refine ⟨payload, given, ?_, hname, hgiven, hargs⟩
  unfold parseModelResponse
  rw [if_pos hfinal, parseJsonTool, hextract, hloads, haccept]

/-! ## Where the recognisers coincide -/

def ToolSpec.hasParameters (tool : ToolSpec) : Bool :=
  match tool.parameters with
  | some (.obj _) => true
  | _ => false

namespace ToolRuntime

variable {rt : ToolRuntime} {py : Interpreter} {tool : ToolSpec} {content : Text}

/-- `Pico` lets nobody delegate at the full depth. -/
def DepthLeft (rt : ToolRuntime) (name : Text) : Prop :=
  name ≠ delegateName ∨ rt.depth < rt.maxDepth

/-- The arguments pass the declared texts exactly when they pass the schema, where there is one;
for an MCP tool, whose schema both recognisers check, only if. -/
def AgreesOn (rt : ToolRuntime) (py : Interpreter) (tool : ToolSpec) (name : Text)
    (args : JsonFields) : Prop :=
  (rt.DepthLeft name → tool.hasParameters = true → py.schemaOk tool args = true →
    flatOk tool.schema args = true) ∧
  (rt.DepthLeft name → tool.hasParameters = true → isMcp name = false →
    flatOk tool.schema args = true → py.schemaOk tool args = true) ∧
  (¬ rt.DepthLeft name → flatOk tool.schema args = false)

theorem validate_iff : rt.validate py name args tool = true ↔
    rt.checks name args = true ∧ (isMcp name = true → py.schemaOk tool args = true) := by
  unfold validate
  cases isMcp name <;> simp

theorem validateTool_iff : rt.validateTool py name args tool = true ↔
    rt.checks name args = true ∧ (isMcp name = true → py.schemaOk tool args = true) ∧
      rt.DepthLeft name := by
  have hmcp : (!isMcp name || py.schemaOk tool args) = true ↔
      (isMcp name = true → py.schemaOk tool args = true) := by
    cases isMcp name <;> simp
  unfold validateTool DepthLeft
  rw [Bool.and_eq_true, Bool.and_eq_true, hmcp, Bool.or_eq_true, decide_eq_true_iff,
    decide_eq_true_iff]
  constructor
  · exact fun h => ⟨h.1.2, h.1.1, h.2⟩
  · exact fun h => ⟨⟨h.2.1, h.1⟩, h.2.2⟩

/-- Without a schema nothing is held against one. -/
theorem schemaOk_of_not_hasParameters (h : tool.hasParameters = false) :
    py.schemaOk tool args = true := by
  unfold ToolSpec.hasParameters at h
  unfold Interpreter.schemaOk Interpreter.validateJsonToolArguments
  cases hparameters : tool.parameters with
  | none => rfl
  | some schema =>
      cases schema with
      | obj fields =>
          rw [hparameters] at h
          cases h
      | _ => rfl

theorem declaredCheck_isOk_iff : (declaredCheck py tool args).isOk = true ↔
    (if tool.hasParameters = true then py.schemaOk tool args = true
      else flatOk tool.schema args = true) := by
  unfold declaredCheck ToolSpec.hasParameters
  split
  · rw [if_pos rfl]
    rfl
  · rw [if_neg Bool.false_ne_true]
    split
    · next hflat => exact iff_of_true rfl hflat
    · next hflat => exact iff_of_false Bool.false_ne_true hflat

theorem recover_call_iff : rt.recoverNativeTextToolCall py loads content = .call name args ↔
    ∃ tool, readEnvelope loads content = .ok (name, args) ∧ rt.tools name = some tool ∧
      flatOk tool.schema args = true ∧ rt.validate py name args tool = true := by
  unfold recoverNativeTextToolCall
  constructor
  · intro h
    split at h
    · cases h
    next name' args' hread =>
    split at h
    · cases h
    next tool htool =>
    split at h
    · next hflat =>
        split at h
        · next hvalid =>
            cases h
            exact ⟨tool, hread, htool, hflat, hvalid⟩
        · cases h
    · cases h
  · rintro ⟨tool, hread, htool, hflat, hvalid⟩
    rw [hread]
    dsimp only
    rw [htool]
    dsimp only
    rw [if_pos hflat, if_pos hvalid]

theorem picoRecover_call_iff : rt.picoRecoverNativeTextToolCall py loads content = .call name args ↔
    ∃ tool, readEnvelope loads content = .ok (name, args) ∧ rt.tools name = some tool ∧
      (declaredCheck py tool args).isOk = true ∧ rt.validateTool py name args tool = true := by
  unfold picoRecoverNativeTextToolCall
  constructor
  · intro h
    split at h
    · cases h
    next name' args' hread =>
    split at h
    · cases h
    next tool htool =>
    split at h
    · next hchecked =>
        split at h
        · next hvalid =>
            cases h
            refine ⟨tool, hread, htool, ?_, hvalid⟩
            rw [hchecked]
            rfl
        · cases h
    · cases h
    · cases h
  · rintro ⟨tool, hread, htool, hchecked, hvalid⟩
    rw [hread]
    dsimp only
    rw [htool]
    dsimp only
    cases hresult : declaredCheck py tool args with
    | error raised =>
        rw [hresult] at hchecked
        cases hchecked
    | ok =>
        dsimp only
        rw [if_pos hvalid]

/-- The two recognisers return the same call for the text or no call, and what the adapter
returns is what the text protocol runs. -/
structure Coincide (rt : ToolRuntime) (py : Interpreter) (loads : Text → Option Json)
    (content : Text) : Prop where
  parsed : ∀ name args, rt.recoverNativeTextToolCall py loads content = .call name args →
    IsTextCall name args (parseModelResponse loads content)
  same : ∀ name args, rt.recoverNativeTextToolCall py loads content = .call name args ↔
    rt.picoRecoverNativeTextToolCall py loads content = .call name args

/-- The checks agree on the call of the text, if it is one of a registered tool that passes the
checks by its name. -/
def ChecksAgree (rt : ToolRuntime) (py : Interpreter) (loads : Text → Option Json)
    (content : Text) : Prop :=
  ∀ name args tool, readEnvelope loads content = .ok (name, args) → rt.tools name = some tool →
    rt.checks name args = true → rt.AgreesOn py tool name args

theorem isMcp_of_not_depthLeft (h : ¬ rt.DepthLeft name) : isMcp name = false := by
  unfold DepthLeft at h
  rw [not_or, not_ne_iff] at h
  rw [h.1]
  rfl

/-- On one call: both take it or neither does. -/
theorem agreesOn_iff (hchecks : rt.checks name args = true) :
    (flatOk tool.schema args = true ∧ rt.validate py name args tool = true ↔
      (declaredCheck py tool args).isOk = true ∧ rt.validateTool py name args tool = true) ↔
    rt.AgreesOn py tool name args := by
  rw [validate_iff, validateTool_iff, declaredCheck_isOk_iff]
  unfold AgreesOn
  by_cases hdepth : rt.DepthLeft name
  · cases hparameters : tool.hasParameters with
    | true =>
        cases isMcp name <;> cases py.schemaOk tool args <;> cases flatOk tool.schema args <;>
          simp [hchecks, hdepth]
    | false =>
        have hschema : py.schemaOk tool args = true := schemaOk_of_not_hasParameters hparameters
        simp [hchecks, hdepth, hschema]
  · have hmcp := isMcp_of_not_depthLeft hdepth
    simp [hchecks, hdepth, hmcp]

/-- Every text on which the checks agree is one on which the three recognisers coincide, and no
other one is. -/
theorem coincide_iff (rt : ToolRuntime) (py : Interpreter) (loads : Text → Option Json)
    (content : Text) : Coincide rt py loads content ↔ ChecksAgree rt py loads content := by
  constructor
  · intro h name args tool hread htool hchecks
    rw [← agreesOn_iff hchecks]
    have hsame := h.same name args
    rw [recover_call_iff, picoRecover_call_iff] at hsame
    constructor
    · intro hadapter
      obtain ⟨tool', -, htool', haccepted⟩ := hsame.mp ⟨tool, hread, htool, hadapter⟩
      rw [htool] at htool'
      cases htool'
      exact haccepted
    · intro hpico
      obtain ⟨tool', -, htool', haccepted⟩ := hsame.mpr ⟨tool, hread, htool, hpico⟩
      rw [htool] at htool'
      cases htool'
      exact haccepted
  · intro h
    refine ⟨fun name args hcall => ?_, fun name args => ?_⟩
    · obtain ⟨tool, hread, -⟩ := recover_call_iff.mp hcall
      exact parseModelResponse_of_enveloped (enveloped_of_readEnvelope hread)
    · rw [recover_call_iff, picoRecover_call_iff]
      constructor
      · rintro ⟨tool, hread, htool, hflat, hvalid⟩
        have hagrees := h name args tool hread htool (validate_iff.mp hvalid).1
        have haccepted := (agreesOn_iff (validate_iff.mp hvalid).1).mpr hagrees
        exact ⟨tool, hread, htool, haccepted.mp ⟨hflat, hvalid⟩⟩
      · rintro ⟨tool, hread, htool, hchecked, hvalid⟩
        have hagrees := h name args tool hread htool (validateTool_iff.mp hvalid).1
        have haccepted := (agreesOn_iff (validateTool_iff.mp hvalid).1).mpr hagrees
        exact ⟨tool, hread, htool, haccepted.mpr ⟨hchecked, hvalid⟩⟩

/-! ## A tool that declares a schema -/

def echoName : Text := "mcp_demo_echo".toList

def messageKey : Text := "message".toList

/-- An MCP tool has no declared texts. -/
def echoTool : ToolSpec where
  parameters := some (.obj [("type".toList, .str "object".toList),
    ("properties".toList, .obj [(messageKey, .obj [("type".toList, .str "string".toList)])]),
    ("required".toList, .arr [.str messageKey])])

def echoRuntime : ToolRuntime where
  tools name := if name = echoName then some echoTool else none
  checks _ _ := true
  depth := 0
  maxDepth := 1

/-- `==` is not asked for without an `enum`. -/
def plainInterpreter : Interpreter where
  eq _ _ := false
  str value := match value with
    | .str text => text
    | _ => []
  nonzero _ := true

def echoBody : Text :=
  "\x7b\"name\":\"mcp_demo_echo\",\"args\":\x7b\"message\":\"legacy\"\x7d\x7d".toList

def echoArgs : JsonFields := [(messageKey, .str "legacy".toList)]

def echoLoads (text : Text) : Option Json :=
  if text = echoBody then some (.obj [(nameKey, .str echoName), (argsKey, .obj echoArgs)]) else none

def echoText : Text := openTag toolName ++ (echoBody ++ closeTag toolName)

theorem echo_envelope : readEnvelope echoLoads echoText = .ok (echoName, echoArgs) := rfl

/-- `Pico` recovers the call of the tool, and the adapter refuses it. -/
theorem echo_differs : ¬ Coincide echoRuntime plainInterpreter echoLoads echoText := by
  intro h
  have hpico : echoRuntime.picoRecoverNativeTextToolCall plainInterpreter echoLoads echoText =
      .call echoName echoArgs :=
    picoRecover_call_iff.mpr ⟨echoTool, echo_envelope, rfl, rfl, rfl⟩
  obtain ⟨tool, -, htool, hflat, -⟩ := recover_call_iff.mp ((h.same echoName echoArgs).mpr hpico)
  obtain rfl : echoTool = tool := Option.some.inj htool
  exact Bool.false_ne_true hflat

end ToolRuntime

end Agent
end CodeCub

import CodeCub.Python.Str
import CodeCub.Python.Find
import CodeCub.Native.Loop

/-!
# Legacy model replies

`_parse_model_response` reads one reply of a model without native tools: a tool call
in JSON or in XML, a final answer, or something to retry.  A text is the list of its
characters.  `json.loads` is an argument, `none` where it raises; the regular
expressions of `_parse_xml_tool` are written out as the leftmost searches they are.
-/

namespace CodeCub
namespace Agent

open Python

abbrev Text := List Char

def finalName : Text := ['f', 'i', 'n', 'a', 'l']
def toolName : Text := ['t', 'o', 'o', 'l']
def nameKey : Text := ['n', 'a', 'm', 'e']
def argsKey : Text := ['a', 'r', 'g', 's']
def contentKey : Text := ['c', 'o', 'n', 't', 'e', 'n', 't']
def oldTextKey : Text := ['o', 'l', 'd', '_', 't', 'e', 'x', 't']
def newTextKey : Text := ['n', 'e', 'w', '_', 't', 'e', 'x', 't']
def commandKey : Text := ['c', 'o', 'm', 'm', 'a', 'n', 'd']
def taskKey : Text := ['t', 'a', 's', 'k']
def patternKey : Text := ['p', 'a', 't', 't', 'e', 'r', 'n']
def pathKey : Text := ['p', 'a', 't', 'h']
def writeFileName : Text := ['w', 'r', 'i', 't', 'e', '_', 'f', 'i', 'l', 'e']
def delegateName : Text := ['d', 'e', 'l', 'e', 'g', 'a', 't', 'e']

def openTag (tag : Text) : Text := '<' :: tag ++ ['>']

def closeTag (tag : Text) : Text := '<' :: '/' :: tag ++ ['>']

/-- `"<tool"`, with or without attributes. -/
def toolStart : Text := '<' :: toolName

/-- The child elements of an XML call, in the order in which they are read. -/
def childKeys : List Text :=
  [contentKey, oldTextKey, newTextKey, commandKey, taskKey, patternKey, pathKey]

def stripText (text : Text) : Text := stripList isSpace text

/-- What follows the first `<tag>`, up to the next `</tag>` if there is one. -/
def inside (tag text : Text) : Text :=
  match find (closeTag tag) text with
  | none => text
  | some stop => text.take stop

def extract (text tag : Text) (raw : Bool) : Text :=
  match find (openTag tag) text with
  | none => text
  | some start =>
      let found := inside tag (text.drop (start + (openTag tag).length))
      if raw then found else stripText found

/-! ## Values -/

/-- What `json.loads` returns; the keys of an object are distinct. -/
inductive Json where
  | null
  | bool (value : Bool)
  | number (text : String)
  | str (value : Text)
  | arr (items : List Json)
  | obj (fields : List (Text × Json))

/-- `fields[key] = value`. -/
def assign {V : Type} (key : Text) (value : V) : List (Text × V) → List (Text × V)
  | [] => [(key, value)]
  | entry :: rest => if entry.1 = key then (key, value) :: rest else entry :: assign key value rest

inductive Reply where
  | tool (payload : List (Text × Json))
  | final (answer : Text)
  | retry (notice : String)

def Reply.isFinal : Reply → Bool
  | .final _ => true
  | _ => false

/-! ## Tool calls in XML -/

/-- `<tool(?P<attrs>[^>]*)>(?P<body>.*?)</tool>` at the start of the text. -/
def matchTool (text : Text) : Option (Text × Text) :=
  if toolStart.isPrefixOf text then
    let rest := text.drop toolStart.length
    match rest.dropWhile (· ≠ '>') with
    | [] => none
    | _ :: after =>
        (find (closeTag toolName) after).map fun stop =>
          (rest.takeWhile (· ≠ '>'), after.take stop)
  else none

/-- `re.search`: the leftmost match. -/
def searchTool : Text → Option (Text × Text)
  | [] => none
  | c :: rest => (matchTool (c :: rest)).orElse fun _ => searchTool rest

def identStart (c : Char) : Bool :=
  ('A' ≤ c && c ≤ 'Z') || ('a' ≤ c && c ≤ 'z') || c == '_'

def identRest (c : Char) : Bool := identStart c || ('0' ≤ c && c ≤ '9')

def doubleQuote : Char := Char.ofNat 0x22

def singleQuote : Char := Char.ofNat 0x27

/-- A quoted value and what follows it. -/
def matchQuoted (quote : Char) (text : Text) : Option (Text × Text) :=
  match text with
  | [] => none
  | c :: rest =>
      if c = quote then
        match rest.dropWhile (· ≠ quote) with
        | [] => none
        | _ :: after => some (rest.takeWhile (· ≠ quote), after)
      else none

/-- An attribute at the start of the text, with what follows it: a name, an equals sign
with white space around it, and a value in double or in single quotes. -/
def matchAttr (text : Text) : Option ((Text × Text) × Text) :=
  match text with
  | [] => none
  | c :: rest =>
      if identStart c then
        let key := c :: rest.takeWhile identRest
        match (rest.dropWhile identRest).dropWhile isSpace with
        | [] => none
        | eq :: value =>
            if eq = '=' then
              let quoted := value.dropWhile isSpace
              ((matchQuoted doubleQuote quoted).orElse fun _ => matchQuoted singleQuote quoted).map
                fun found => ((key, found.1), found.2)
            else none
      else none

/-- `re.finditer`; a match is never empty, so the length of the text bounds the search. -/
def findAttrs : Nat → Text → List (Text × Text)
  | 0, _ => []
  | _, [] => []
  | fuel + 1, c :: rest =>
      match matchAttr (c :: rest) with
      | some (attr, after) => attr :: findAttrs fuel after
      | none => findAttrs fuel rest

def attributes (text : Text) : List (Text × Text) :=
  (findAttrs text.length text).foldl (fun attrs attr => assign attr.1 attr.2 attrs) []

/-- The child elements that the body has, over the attributes. -/
def withChildren (body : Text) (args : List (Text × Text)) : List (Text × Text) :=
  childKeys.foldl (fun args key =>
    if (find (openTag key) body).isSome then assign key (extract body key true) args else args) args

/-- The name of the call and its arguments. -/
def parseXmlTool (raw : Text) : Option (Text × List (Text × Text)) :=
  match searchTool raw with
  | none => none
  | some (attrText, body) =>
      let attrs := attributes attrText
      let name := stripText ((attrs.lookup nameKey).getD [])
      if name = [] then none
      else
        let args := withChildren body (attrs.filter (·.1 ≠ nameKey))
        let bodyText := stripList (· == '\n') body
        let args :=
          if name = writeFileName ∧ args.lookup contentKey = none ∧ bodyText ≠ [] then
            assign contentKey bodyText args
          else args
        let args :=
          if name = delegateName ∧ args.lookup taskKey = none ∧ bodyText ≠ [] then
            assign taskKey (stripText bodyText) args
          else args
        some (name, args)

/-- `{"name": name, "args": args}`. -/
def xmlPayload (name : Text) (args : List (Text × Text)) : List (Text × Json) :=
  [(nameKey, .str name), (argsKey, .obj (args.map fun arg => (arg.1, .str arg.2)))]

/-! ## Replies -/

/-- `not str(value).strip()`: every value that is not a string has a visible text. -/
def Json.blank : Json → Bool
  | .str value => (stripText value).isEmpty
  | _ => false

def malformed : String := Native.retryNotice "model returned malformed tool output"

/-- A decoded payload is a call if it is an object with a name and arguments. -/
def acceptPayload : Option Json → Reply
  | none => .retry (Native.retryNotice "model returned malformed tool JSON")
  | some (.obj payload) =>
      if ((payload.lookup nameKey).map Json.blank).getD true then
        .retry (Native.retryNotice "tool payload is missing a tool name")
      else
        match payload.lookup argsKey with
        | some .null => .tool (assign argsKey (.obj []) payload)
        | some (.obj _) => .tool payload
        | none => .tool payload
        | some _ => .retry malformed
  | some _ => .retry (Native.retryNotice "tool payload must be a JSON object")

def parseJsonTool (loads : Text → Option Json) (raw : Text) : Reply :=
  acceptPayload (loads (extract raw toolName false))

/-- `tag in raw and ("<final>" not in raw or raw.find(tag) < raw.find("<final>"))`. -/
def beforeFinal (tag raw : Text) : Bool :=
  match find tag raw, find (openTag finalName) raw with
  | none, _ => false
  | some _, none => true
  | some position, some final => position < final

def parseModelResponse (loads : Text → Option Json) (raw : Text) : Reply :=
  if beforeFinal (openTag toolName) raw then parseJsonTool loads raw
  else if beforeFinal toolStart raw then
    match parseXmlTool raw with
    | some (name, args) => .tool (xmlPayload name args)
    | none => .retry malformed
  else if (find (openTag finalName) raw).isSome then
    let answer := stripText (extract raw finalName false)
    if answer = [] then .retry (Native.retryNotice "model returned an empty <final> answer")
    else .final answer
  else if stripText raw = [] then .retry (Native.retryNotice "model returned an empty response")
  else
    .retry (Native.retryNotice "model response is missing required <tool> or <final> tags")

/-! ## Which replies are final answers -/

variable {loads : Text → Option Json} {raw : Text}

theorem openTag_ne_nil (tag : Text) : openTag tag ≠ [] := List.cons_ne_nil _ _

theorem closeTag_ne_nil (tag : Text) : closeTag tag ≠ [] := List.cons_ne_nil _ _

theorem beforeFinal_eq_false_iff {tag : Text} :
    beforeFinal tag raw = false ↔
      ∀ position, find tag raw = some position →
        ∃ final, find (openTag finalName) raw = some final ∧ final ≤ position := by
  unfold beforeFinal
  cases find tag raw with
  | none => simp
  | some position =>
      cases find (openTag finalName) raw with
      | none => simp
      | some final => simp

/-- A call in JSON before the answer is also something that starts like a call. -/
theorem beforeFinal_toolStart (h : beforeFinal (openTag toolName) raw = true) :
    beforeFinal toolStart raw = true := by
  by_contra hnot
  rw [Bool.not_eq_true, beforeFinal_eq_false_iff] at hnot
  rw [← Bool.not_eq_false, beforeFinal_eq_false_iff] at h
  apply h
  intro position hfind
  have hstart : Occurs toolStart raw position :=
    List.IsPrefix.trans (List.prefix_append toolStart ['>']) (find_eq_some_iff.mp hfind).1
  cases hfirst : find toolStart raw with
  | none => exact absurd hstart (find_eq_none_iff.mp hfirst position)
  | some first =>
      have hle : first ≤ position := by
        by_contra hlt
        exact (find_eq_some_iff.mp hfirst).2 position (by omega) hstart
      obtain ⟨final, hfinal, hfinal_le⟩ := hnot first hfirst
      exact ⟨final, hfinal, hfinal_le.trans hle⟩

theorem acceptPayload_isFinal (decoded : Option Json) :
    (acceptPayload decoded).isFinal = false := by
  unfold acceptPayload
  split
  · rfl
  · split
    · rfl
    · split <;> rfl
  · rfl

/-- A reply that starts like a call before its first `<final>` is no answer. -/
theorem isFinal_of_beforeFinal (h : beforeFinal toolStart raw = true) :
    (parseModelResponse loads raw).isFinal = false := by
  unfold parseModelResponse
  by_cases hjson : beforeFinal (openTag toolName) raw = true
  · rw [if_pos hjson]
    exact acceptPayload_isFinal _
  · rw [if_neg hjson, if_pos h]
    cases parseXmlTool raw <;> rfl

theorem not_json_of_not_beforeFinal (h : beforeFinal toolStart raw = false) :
    ¬ beforeFinal (openTag toolName) raw = true := by
  intro hjson
  rw [beforeFinal_toolStart hjson] at h
  cases h

/-- The text inside the first `<final>`, without the white space around it. -/
def answerAt (raw : Text) (start : Nat) : Text :=
  stripText (inside finalName (raw.drop (start + (openTag finalName).length)))

/-- Otherwise the reply is what its first `<final>` has inside. -/
theorem parseModelResponse_of_final (h : beforeFinal toolStart raw = false)
    {start : Nat} (hstart : find (openTag finalName) raw = some start) :
    parseModelResponse loads raw =
      if answerAt raw start = [] then
        .retry (Native.retryNotice "model returned an empty <final> answer")
      else .final (answerAt raw start) := by
  have hextract : stripText (extract raw finalName false) = answerAt raw start := by
    unfold extract answerAt
    rw [hstart]
    exact stripList_stripList _ _
  unfold parseModelResponse
  rw [if_neg (not_json_of_not_beforeFinal h), if_neg (by rw [h]; exact Bool.false_ne_true),
    hstart, if_pos (by rfl)]
  simp only [hextract]

theorem isFinal_of_no_final (h : find (openTag finalName) raw = none) :
    (parseModelResponse loads raw).isFinal = false := by
  by_cases hbefore : beforeFinal toolStart raw = true
  · exact isFinal_of_beforeFinal hbefore
  · unfold parseModelResponse
    rw [if_neg (not_json_of_not_beforeFinal (by simpa using hbefore)), if_neg hbefore, h,
      if_neg (by exact Bool.false_ne_true)]
    split <;> rfl

theorem final_cases {answer : Text} (h : parseModelResponse loads raw = .final answer) :
    beforeFinal toolStart raw = false ∧
      ∃ start, find (openTag finalName) raw = some start ∧ answer = answerAt raw start := by
  have hfinal : (parseModelResponse loads raw).isFinal = true := by
    rw [h]
    rfl
  have hbefore : beforeFinal toolStart raw = false := by
    by_contra hbefore
    rw [isFinal_of_beforeFinal (by simpa using hbefore)] at hfinal
    cases hfinal
  refine ⟨hbefore, ?_⟩
  cases hstart : find (openTag finalName) raw with
  | none =>
      rw [isFinal_of_no_final hstart] at hfinal
      cases hfinal
  | some start =>
      rw [parseModelResponse_of_final hbefore hstart] at h
      refine ⟨start, rfl, ?_⟩
      by_cases hblank : answerAt raw start = []
      · rw [if_pos hblank] at h
        cases h
      · rw [if_neg hblank] at h
        exact (Reply.final.inj h).symm

end Agent
end CodeCub

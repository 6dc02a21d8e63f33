import CodeCub.Agent.Parser

/-!
# Tool calls written in XML

A call of a tool with a path and a content, as the prompt asks for it, and when it is
read back.  The parser looks for tags in the content as well: the body of the call ends
at the first `</tool>`, every child element is taken where its tag first stands, and a
`<tool>` in the content makes it try JSON.
-/

namespace CodeCub
namespace Agent

open Python

/-- No quotes and no angle brackets. -/
def Plain (text : Text) : Prop :=
  ∀ c ∈ text, c ≠ doubleQuote ∧ c ≠ singleQuote ∧ c ≠ '<' ∧ c ≠ '>'

/-- The attributes `name` and `path`. -/
def attrText (name path : Text) : Text :=
  ' ' :: (nameKey ++ '=' :: doubleQuote :: (name ++ doubleQuote ::
    ' ' :: (pathKey ++ '=' :: doubleQuote :: (path ++ [doubleQuote]))))

/-- What stands after the content. -/
def closers : Text := closeTag contentKey ++ closeTag toolName

/-- `<tool name="N" path="P"><content>C</content></tool>`. -/
def callText (name path content : Text) : Text :=
  toolStart ++ attrText name path ++ '>' :: (openTag contentKey ++ (content ++ closers))

/-- The payload is the call itself, as a dictionary. -/
def IsCall (name path content : Text) (payload : List (Text × Json)) : Prop :=
  payload.lookup nameKey = some (.str name) ∧
    (∃ args, payload.lookup argsKey = some (.obj args) ∧
      ∀ key, args.lookup key =
        if key = pathKey then some (.str path)
        else if key = contentKey then some (.str content) else none) ∧
    ∀ key, key ≠ nameKey → key ≠ argsKey → payload.lookup key = none

/-- The reply is the call or a retry. -/
def ExactOrRetry (name path content : Text) : Reply → Prop
  | .tool payload => IsCall name path content payload
  | .retry _ => True
  | .final _ => False

/-- The content has no tag that the parser would act on. -/
structure Readable (name path content : Text) : Prop where
  trimmed : stripText name = name
  delegate : name ≠ delegateName
  tool : ¬ closeTag toolName <:+: content
  close : ¬ closeTag contentKey <:+: content
  children : ∀ key ∈ [oldTextKey, newTextKey, commandKey, taskKey, patternKey],
    ¬ openTag key <:+: content
  path : ∀ start, find (openTag pathKey) content = some start →
    path ++ closeTag pathKey <+: content.drop (start + (openTag pathKey).length)

/-- The JSON that the content carries is not taken for another call. -/
def JsonHarmless (loads : Text → Option Json) (name path content : Text) : Prop :=
  ∀ payload, acceptPayload (loads (extract (content ++ closers) toolName false)) = .tool payload →
    IsCall name path content payload

/-! ## Tags in a text -/

/-- A tag: an angle bracket opens it, and there is no other one in it. -/
def IsTag (tag : Text) : Prop := ∃ rest, tag = '<' :: rest ∧ '<' ∉ rest

theorem IsTag.ne_nil {tag : Text} (h : IsTag tag) : tag ≠ [] := by
  obtain ⟨rest, rfl, -⟩ := h
  exact List.cons_ne_nil _ _

theorem isTag_openTag {tag : Text} (h : '<' ∉ tag) : IsTag (openTag tag) :=
  ⟨tag ++ ['>'], rfl, by simp [h]⟩

theorem isTag_closeTag {tag : Text} (h : '<' ∉ tag) : IsTag (closeTag tag) :=
  ⟨'/' :: tag ++ ['>'], rfl, by simp [h]⟩

/-- A tag that starts before another angle bracket also ends before it. -/
theorem IsTag.occurs_of_lt {tag a b : Text} {i : Nat} (h : IsTag tag)
    (hoccurs : Occurs tag (a ++ '<' :: b) i) (hi : i < a.length) : Occurs tag a i := by
  obtain ⟨rest, rfl, hrest⟩ := h
  refine hoccurs.of_append ?_
  by_contra hend
  -- otherwise the bracket is one of the later characters of the tag
  unfold Occurs at hoccurs
  rw [List.drop_append_of_le_length (by omega), List.drop_eq_getElem_cons hi,
    List.cons_append] at hoccurs
  have htail := (List.cons_prefix_cons.mp hoccurs).2
  have hlonger : a.drop (i + 1) ++ ['<'] <+: rest := by
    refine List.prefix_of_prefix_length_le ⟨b, by simp⟩ htail ?_
    simp only [List.length_append, List.length_drop, List.length_cons, List.length_nil] at hend ⊢
    omega
  exact hrest (hlonger.subset (by simp))

/-- The first tag of a text that goes on with a bracket. -/
theorem IsTag.find_append {tag : Text} (h : IsTag tag) (a b : Text) :
    find tag (a ++ '<' :: b) =
      (find tag a).or ((find tag ('<' :: b)).map (a.length + ·)) := by
  cases hfind : find tag a with
  | some i =>
      rw [Option.some_or]
      exact find_append_of_some hfind h.ne_nil _
  | none =>
      rw [Option.none_or]
      apply find_append_of_not
      intro i hi hoccurs
      exact find_eq_none_iff.mp hfind i (h.occurs_of_lt hoccurs hi)

/-- A tag is not found in a piece that opens with a bracket, has no other one, and does
not begin with the tag. -/
theorem IsTag.find_skip {tag : Text} (h : IsTag tag) {piece : Text} (hpiece : '<' ∉ piece)
    (rest : Text) (hhead : ¬ tag <+: '<' :: (piece ++ rest)) :
    find tag ('<' :: (piece ++ rest)) = (find tag rest).map (piece.length + 1 + ·) := by
  obtain ⟨body, rfl, hbody⟩ := h
  have hsplit : '<' :: (piece ++ rest) = ('<' :: piece) ++ rest := rfl
  rw [hsplit]
  apply find_append_of_not
  intro i hi hoccurs
  cases i with
  | zero => exact hhead hoccurs
  | succ i =>
      have hi : i < piece.length := by simpa using hi
      unfold Occurs at hoccurs
      rw [List.cons_append, List.drop_succ_cons, List.drop_append_of_le_length (by omega),
        List.drop_eq_getElem_cons hi, List.cons_append] at hoccurs
      have hbracket := (List.cons_prefix_cons.mp hoccurs).1
      exact hpiece (hbracket ▸ List.getElem_mem hi)

/-! ## The text of a call -/

/-- The opening tag of the call, without its bracket. -/
def headText (name path : Text) : Text := toolName ++ (attrText name path ++ ['>'])

theorem callText_eq (name path content : Text) :
    callText name path content =
      '<' :: (headText name path ++ '<' :: ((contentKey ++ ['>']) ++ (content ++ closers))) := by
  simp [callText, headText, toolStart, openTag]

section
variable {name path content : Text} {loads : Text → Option Json}

theorem bracket_not_mem_headText (hname : Plain name) (hpath : Plain path) :
    '<' ∉ headText name path := by
  intro hmem
  simp [headText, attrText, toolName, nameKey, pathKey, doubleQuote] at hmem
  rcases hmem with hmem | hmem
  · exact (hname _ hmem).2.2.1 rfl
  · exact (hpath _ hmem).2.2.1 rfl

theorem angle_not_mem_attrText (hname : Plain name) (hpath : Plain path) :
    '>' ∉ attrText name path := by
  intro hmem
  simp [attrText, nameKey, pathKey, doubleQuote] at hmem
  rcases hmem with hmem | hmem
  · exact (hname _ hmem).2.2.2 rfl
  · exact (hpath _ hmem).2.2.2 rfl

/-! ## Attributes -/

theorem span_ne {stop : Char} {value : Text} (h : stop ∉ value) (rest : Text) :
    (value ++ stop :: rest).takeWhile (· ≠ stop) = value ∧
      (value ++ stop :: rest).dropWhile (· ≠ stop) = stop :: rest := by
  have hall : ∀ c ∈ value, decide (c ≠ stop) = true := by
    intro c hc
    rw [decide_eq_true_eq]
    intro hsame
    exact h (hsame ▸ hc)
  rw [List.takeWhile_append_of_pos hall, List.dropWhile_append_of_pos hall]
  simp

theorem matchAttr_quoted (c : Char) (key : Text) {value : Text} (hc : identStart c = true)
    (hkey : ∀ x ∈ key, identRest x = true) (hvalue : doubleQuote ∉ value) (rest : Text) :
    matchAttr (c :: (key ++ '=' :: doubleQuote :: (value ++ doubleQuote :: rest))) =
      some ((c :: key, value), rest) := by
  have heq : identRest '=' = false := by decide
  have hblank : isSpace '=' = false := by decide
  have hquote : isSpace doubleQuote = false := by decide
  obtain ⟨htake, hdrop⟩ := span_ne hvalue rest
  unfold matchAttr
  simp only [hc, if_true, List.takeWhile_append_of_pos hkey, List.dropWhile_append_of_pos hkey,
    List.takeWhile_cons, List.dropWhile_cons, heq, hblank, hquote, List.append_nil,
    Bool.false_eq_true, if_false, matchQuoted, htake, hdrop]
  rfl

theorem findAttrs_attrText (hname : Plain name) (hpath : Plain path) (fuel : Nat) :
    findAttrs (fuel + 5) (attrText name path) = [(nameKey, name), (pathKey, path)] := by
  have hfirst := matchAttr_quoted 'n' ['a', 'm', 'e'] (by decide) (by simp [identRest, identStart])
    (fun hmem => (hname _ hmem).1 rfl)
    (' ' :: (pathKey ++ '=' :: doubleQuote :: (path ++ [doubleQuote])))
  have hsecond := matchAttr_quoted 'p' ['a', 't', 'h'] (by decide) (by simp [identRest, identStart])
    (fun hmem => (hpath _ hmem).1 rfl) []
  have hspace : ∀ rest, matchAttr (' ' :: rest) = none := fun rest => rfl
  unfold attrText
  rw [findAttrs, hspace]
  show findAttrs (fuel + 4) ('n' :: (['a', 'm', 'e'] ++ _)) = _
  rw [findAttrs, hfirst]
  show (nameKey, name) :: findAttrs (fuel + 3) (' ' :: _) = _
  rw [findAttrs, hspace]
  show (nameKey, name) :: findAttrs (fuel + 2) ('p' :: (['a', 't', 'h'] ++ _)) = _
  rw [findAttrs, hsecond]
  rfl

theorem attributes_attrText (hname : Plain name) (hpath : Plain path) :
    attributes (attrText name path) = [(nameKey, name), (pathKey, path)] := by
  have hlength : (attrText name path).length = (name.length + path.length + 11) + 5 := by
    simp [attrText, nameKey, pathKey]
    omega
  unfold attributes
  rw [hlength, findAttrs_attrText hname hpath]
  rfl

/-! ## Which parser reads the call -/

/-- Where the content starts. -/
def contentOffset (name path : Text) : Nat :=
  (headText name path).length + 1 + ((contentKey ++ ['>']).length + 1)

theorem drop_contentOffset (name path content : Text) (i : Nat) :
    (callText name path content).drop (contentOffset name path + i) =
      (content ++ closers).drop i := by
  have hsplit : callText name path content =
      ('<' :: headText name path ++ '<' :: (contentKey ++ ['>'])) ++ (content ++ closers) := by
    rw [callText_eq]
    simp
  have hlength : contentOffset name path =
      ('<' :: headText name path ++ '<' :: (contentKey ++ ['>'])).length := by
    simp [contentOffset]
    omega
  rw [hsplit, hlength, List.drop_length_add_append]

/-- A tag that is neither that of the call nor that of its content is looked for from the
content on. -/
theorem find_callText {tag : Text} (htag : IsTag tag) (hname : Plain name) (hpath : Plain path)
    (hhead : ∀ rest, ¬ tag <+: '<' :: (headText name path ++ rest))
    (hcontent : ∀ rest, ¬ tag <+: '<' :: ((contentKey ++ ['>']) ++ rest)) :
    find tag (callText name path content) =
      (find tag (content ++ closers)).map (contentOffset name path + ·) := by
  rw [callText_eq, htag.find_skip (bracket_not_mem_headText hname hpath) _ (hhead _),
    htag.find_skip (by decide) _ (hcontent _), Option.map_map]
  congr 1
  funext i
  simp only [Function.comp, contentOffset]
  omega

/-- What the closing tags do not have is found in the content or not at all. -/
theorem find_closers {tag : Text} (htag : IsTag tag) (hclosers : find tag closers = none)
    (content : Text) :
    find tag (content ++ closers) = find tag content := by
  have hfind := htag.find_append content (closers.drop 1)
  have hsame : '<' :: closers.drop 1 = closers := rfl
  rw [hsame, hclosers, Option.map_none, Option.or_none] at hfind
  exact hfind

theorem find_openTool (hname : Plain name) (hpath : Plain path) :
    find (openTag toolName) (callText name path content) =
      (find (openTag toolName) content).map (contentOffset name path + ·) := by
  have htag : IsTag (openTag toolName) := isTag_openTag (by decide)
  rw [find_callText htag hname hpath, find_closers htag (by decide)]
  · intro rest
    simp [openTag, toolName, headText, attrText]
  · intro rest
    simp [openTag, toolName, contentKey]

theorem find_openFinal (hname : Plain name) (hpath : Plain path) :
    find (openTag finalName) (callText name path content) =
      (find (openTag finalName) content).map (contentOffset name path + ·) := by
  have htag : IsTag (openTag finalName) := isTag_openTag (by decide)
  rw [find_callText htag hname hpath, find_closers htag (by decide)]
  · intro rest
    simp [openTag, toolName, finalName, headText]
  · intro rest
    simp [openTag, finalName, contentKey]

theorem beforeFinal_callText (hname : Plain name) (hpath : Plain path) :
    beforeFinal (openTag toolName) (callText name path content) =
      beforeFinal (openTag toolName) content := by
  unfold beforeFinal
  rw [find_openTool hname hpath, find_openFinal hname hpath]
  cases find (openTag toolName) content with
  | none => rfl
  | some position =>
      cases find (openTag finalName) content with
      | none => rfl
      | some final => simp

theorem beforeFinal_toolStart_callText (hname : Plain name) (hpath : Plain path) :
    beforeFinal toolStart (callText name path content) = true := by
  have hstart : find toolStart (callText name path content) = some 0 :=
    find_eq_some_iff.mpr ⟨⟨attrText name path ++ '>' :: (openTag contentKey ++ (content ++ closers)),
      by simp [callText]⟩, fun j hj => absurd hj (Nat.not_lt_zero _)⟩
  unfold beforeFinal
  rw [hstart, find_openFinal hname hpath]
  cases find (openTag finalName) content with
  | none => rfl
  | some final =>
      simp [contentOffset]

/-- In JSON the parser reads what the content has in `<tool>`. -/
theorem extract_callText (hname : Plain name) (hpath : Plain path)
    (h : beforeFinal (openTag toolName) content = true) :
    extract (callText name path content) toolName false =
      extract (content ++ closers) toolName false := by
  have htag : IsTag (openTag toolName) := isTag_openTag (by decide)
  have hcontent := find_closers htag (by decide) content
  cases hfind : find (openTag toolName) content with
  | none =>
      unfold beforeFinal at h
      rw [hfind] at h
      cases h
  | some start =>
      unfold extract
      rw [hcontent, find_openTool hname hpath, hfind]
      simp only [Option.map_some, Nat.add_assoc, drop_contentOffset]

/-! ## The body of the call -/

/-- The content as far as the body of the call reaches. -/
def bodyContent (content : Text) : Text :=
  match find (closeTag toolName) content with
  | some stop => content.take stop
  | none => content ++ closeTag contentKey

theorem find_closeTool (content : Text) :
    (find (closeTag toolName) (openTag contentKey ++ (content ++ closers))).map
        (openTag contentKey ++ (content ++ closers)).take =
      some (openTag contentKey ++ bodyContent content) := by
  have htag : IsTag (closeTag toolName) := isTag_closeTag (by decide)
  have hskip := htag.find_skip (show '<' ∉ contentKey ++ ['>'] by decide) (content ++ closers)
    (by simp [closeTag, contentKey])
  have happend := htag.find_append content (closers.drop 1)
  have hsame : '<' :: closers.drop 1 = closers := rfl
  have hclosers : find (closeTag toolName) closers = some (closeTag contentKey).length := by decide
  rw [hsame, hclosers] at happend
  have hopen : openTag contentKey ++ (content ++ closers) =
      '<' :: ((contentKey ++ ['>']) ++ (content ++ closers)) := rfl
  have hlength : (contentKey ++ ['>']).length + 1 = (openTag contentKey).length := rfl
  rw [hopen, hskip, happend, ← hopen, hlength]
  unfold bodyContent
  cases hfind : find (closeTag toolName) content with
  | some stop =>
      have hle := (find_eq_some_iff.mp hfind).1.length_le htag.ne_nil
      simp only [Option.some_or, Option.map_some, List.take_length_add_append]
      rw [List.take_append_of_le_length (by omega)]
  | none =>
      simp only [Option.none_or, Option.map_some, List.take_length_add_append]
      rw [closers, List.take_left]

theorem searchTool_callText (hname : Plain name) (hpath : Plain path) :
    searchTool (callText name path content) =
      some (attrText name path, openTag contentKey ++ bodyContent content) := by
  obtain ⟨htake, hdrop⟩ := span_ne (angle_not_mem_attrText hname hpath)
    (openTag contentKey ++ (content ++ closers))
  have hrest : (callText name path content).drop toolStart.length =
      attrText name path ++ '>' :: (openTag contentKey ++ (content ++ closers)) := by
    rw [callText, List.append_assoc, List.drop_left]
  have hstarts : toolStart.isPrefixOf (callText name path content) = true := by
    rw [List.isPrefixOf_iff_prefix, callText, List.append_assoc]
    exact List.prefix_append _ _
  have hmatch : matchTool (callText name path content) =
      some (attrText name path, openTag contentKey ++ bodyContent content) := by
    unfold matchTool
    rw [if_pos hstarts]
    simp only [hrest, hdrop, htake]
    obtain ⟨stop, hstop, htaken⟩ := Option.map_eq_some_iff.mp (find_closeTool content)
    rw [hstop]
    simp only [Option.map_some, htaken]
  rw [callText_eq] at hmatch ⊢
  unfold searchTool
  rw [hmatch]
  rfl

/-! ## Arguments -/

theorem lookup_assign {V : Type} (key other : Text) (value : V) (fields : List (Text × V)) :
    (assign key value fields).lookup other =
      if other = key then some value else fields.lookup other := by
  induction fields with
  | nil =>
      unfold assign
      by_cases h : other = key
      · simp [h]
      · have hne : (other == key) = false := by simpa using h
        simp [List.lookup_cons, h, hne]
  | cons entry rest ih =>
      unfold assign
      by_cases hentry : entry.1 = key
      · rw [if_pos hentry]
        by_cases h : other = key
        · simp [h]
        · have hne : (other == key) = false := by simpa using h
          rw [if_neg h, List.lookup_cons, List.lookup_cons, hentry, hne]
      · rw [if_neg hentry, List.lookup_cons, List.lookup_cons, ih]
        by_cases h : other = key
        · subst h
          have hne : (other == entry.1) = false := by simpa using Ne.symm hentry
          simp [hne]
        · simp [h]

/-- The child elements that a body has win over the attributes. -/
theorem lookup_withChildren (body : Text) (args : List (Text × Text)) (key : Text) :
    (withChildren body args).lookup key =
      if key ∈ childKeys ∧ (find (openTag key) body).isSome then some (extract body key true)
      else args.lookup key := by
  unfold withChildren
  induction childKeys generalizing args with
  | nil => simp
  | cons child rest ih =>
      rw [List.foldl_cons, ih]
      by_cases hrest : key ∈ rest ∧ (find (openTag key) body).isSome
      · rw [if_pos hrest, if_pos ⟨List.mem_cons_of_mem _ hrest.1, hrest.2⟩]
      · rw [if_neg hrest]
        by_cases hchild : (find (openTag child) body).isSome
        · rw [if_pos hchild, lookup_assign]
          by_cases hsame : key = child
          · subst hsame
            simp [hchild]
          · rw [if_neg hsame, if_neg]
            rintro ⟨hmem, hfound⟩
            exact hrest ⟨(List.mem_cons.mp hmem).resolve_left hsame, hfound⟩
        · rw [if_neg hchild, if_neg]
          rintro ⟨hmem, hfound⟩
          rcases List.mem_cons.mp hmem with hmem | hmem
          · subst hmem
            exact hchild hfound
          · exact hrest ⟨hmem, hfound⟩

theorem lookup_str (args : List (Text × Text)) (key : Text) :
    (args.map fun arg => (arg.1, Json.str arg.2)).lookup key = (args.lookup key).map Json.str := by
  induction args with
  | nil => rfl
  | cons arg rest ih =>
      rw [List.map_cons, List.lookup_cons, List.lookup_cons, ih]
      by_cases h : (key == arg.1) = true
      · simp [h]
      · simp [h]

theorem isCall_xmlPayload (given : Text) (args : List (Text × Text)) :
    IsCall name path content (xmlPayload given args) ↔
      given = name ∧ ∀ key, args.lookup key =
        if key = pathKey then some path else if key = contentKey then some content else none := by
  have hinj : Function.Injective (Option.map Json.str) :=
    Option.map_injective fun _ _ h => Json.str.inj h
  have hargs : ∀ key, (args.map fun arg => (arg.1, Json.str arg.2)).lookup key =
      (if key = pathKey then some (.str path)
        else if key = contentKey then some (.str content) else none) ↔
      args.lookup key = if key = pathKey then some path
        else if key = contentKey then some content else none := by
    intro key
    rw [lookup_str]
    split
    · exact hinj.eq_iff (b := some path)
    · split
      · exact hinj.eq_iff (b := some content)
      · exact hinj.eq_iff (b := none)
  have hname : (xmlPayload given args).lookup nameKey = some (.str given) := by
    simp [xmlPayload]
  have hobj : (xmlPayload given args).lookup argsKey =
      some (.obj (args.map fun arg => (arg.1, Json.str arg.2))) := by
    simp [xmlPayload, List.lookup_cons, show (argsKey == nameKey) = false by decide]
  have hother : ∀ key, key ≠ nameKey → key ≠ argsKey →
      (xmlPayload given args).lookup key = none := by
    intro key h h'
    have hne : (key == nameKey) = false := by simpa using h
    have hne' : (key == argsKey) = false := by simpa using h'
    simp [xmlPayload, List.lookup_cons, hne, hne']
  unfold IsCall
  rw [hname, hobj]
  constructor
  · rintro ⟨hgiven, ⟨fields, hfields, hall⟩, -⟩
    refine ⟨Json.str.inj (Option.some.inj hgiven), fun key => (hargs key).mp ?_⟩
    rw [Json.obj.inj (Option.some.inj hfields)]
    exact hall key
  · rintro ⟨hgiven, hall⟩
    exact ⟨by rw [hgiven], ⟨_, rfl, fun key => (hargs key).mpr (hall key)⟩, hother⟩

theorem extract_content (content : Text) :
    extract (openTag contentKey ++ bodyContent content) contentKey true =
      inside contentKey (bodyContent content) := by
  have hfind : find (openTag contentKey) (openTag contentKey ++ bodyContent content) = some 0 :=
    find_eq_some_iff.mpr ⟨List.prefix_append _ _, fun j hj => absurd hj (Nat.not_lt_zero _)⟩
  unfold extract
  rw [hfind]
  simp

theorem find_some_of_present {tag text : Text} (h : tag <:+: text) :
    ∃ start, find tag text = some start :=
  Option.isSome_iff_exists.mp (find_isSome_iff.mpr h)

theorem find_none_of_absent {tag text : Text} (h : ¬ tag <:+: text) :
    find tag text = none := by
  rw [← Option.not_isSome_iff_eq_none, find_isSome_iff]
  exact h

theorem length_inside_le (tag text : Text) : (inside tag text).length ≤ text.length := by
  unfold inside
  split
  · exact Nat.le_refl _
  · exact (List.take_prefix _ _).length_le

/-- The content is read back exactly when neither closing tag stands in it. -/
theorem inside_bodyContent_iff (content : Text) :
    inside contentKey (bodyContent content) = content ↔
      ¬ closeTag toolName <:+: content ∧ ¬ closeTag contentKey <:+: content := by
  have htool : IsTag (closeTag toolName) := isTag_closeTag (by decide)
  have htag : IsTag (closeTag contentKey) := isTag_closeTag (by decide)
  by_cases hclose : closeTag toolName <:+: content
  · obtain ⟨stop, hstop⟩ := find_some_of_present hclose
    have hle := (find_eq_some_iff.mp hstop).1.length_le htool.ne_nil
    have hpos := List.length_pos_iff.mpr htool.ne_nil
    unfold bodyContent
    rw [hstop]
    constructor
    · intro hsame
      have hlength := length_inside_le contentKey (content.take stop)
      rw [hsame, List.length_take] at hlength
      omega
    · intro h
      exact absurd hclose h.1
  · unfold bodyContent
    rw [find_none_of_absent hclose]
    have hfind : find (closeTag contentKey) (content ++ closeTag contentKey) =
        (find (closeTag contentKey) content).or (some content.length) := by
      have := htag.find_append content (('/' :: contentKey) ++ ['>'])
      have hself : find (closeTag contentKey) (closeTag contentKey) = some 0 := by decide
      rw [show '<' :: ('/' :: contentKey ++ ['>']) = closeTag contentKey from rfl, hself] at this
      exact this
    unfold inside
    rw [hfind]
    by_cases hcontent : closeTag contentKey <:+: content
    · obtain ⟨stop, hstop⟩ := find_some_of_present hcontent
      have hle := (find_eq_some_iff.mp hstop).1.length_le htag.ne_nil
      have hpos := List.length_pos_iff.mpr htag.ne_nil
      rw [hstop]
      constructor
      · intro hsame
        have hsame : (content ++ closeTag contentKey).take stop = content := hsame
        have hlength := congrArg List.length hsame
        rw [List.length_take] at hlength
        omega
      · intro h
        exact absurd hcontent h.2
    · rw [find_none_of_absent hcontent]
      simp [hclose, hcontent]

/-- The keys of the other child elements. -/
theorem find_child {key : Text} (htag : IsTag (openTag key))
    (hhead : ∀ rest, ¬ openTag key <+: '<' :: ((contentKey ++ ['>']) ++ rest))
    (hclose : find (openTag key) (closeTag contentKey) = none)
    (htool : ¬ closeTag toolName <:+: content) :
    find (openTag key) (openTag contentKey ++ bodyContent content) =
      (find (openTag key) content).map ((openTag contentKey).length + ·) := by
  have hskip := htag.find_skip (show '<' ∉ contentKey ++ ['>'] by decide)
    (content ++ closeTag contentKey) (hhead _)
  have happend := htag.find_append content (('/' :: contentKey) ++ ['>'])
  rw [show '<' :: ('/' :: contentKey ++ ['>']) = closeTag contentKey from rfl, hclose,
    Option.map_none, Option.or_none] at happend
  unfold bodyContent
  rw [find_none_of_absent htool]
  show find (openTag key) ('<' :: ((contentKey ++ ['>']) ++ (content ++ closeTag contentKey))) = _
  rw [hskip, happend]
  rfl

/-- A child element is read from the content when it stands there. -/
theorem find_child_of_mem {key : Text}
    (hkey : key ∈ [oldTextKey, newTextKey, commandKey, taskKey, patternKey, pathKey])
    (htool : ¬ closeTag toolName <:+: content) :
    find (openTag key) (openTag contentKey ++ bodyContent content) =
      (find (openTag key) content).map ((openTag contentKey).length + ·) := by
  simp only [List.mem_cons, List.not_mem_nil, or_false] at hkey
  rcases hkey with rfl | rfl | rfl | rfl | rfl | rfl <;>
    refine find_child (isTag_openTag (by decide)) (fun rest => ?_) (by decide) htool <;>
    simp [openTag, contentKey, oldTextKey, newTextKey, commandKey, taskKey, patternKey, pathKey]

/-- The path in the content is the path of the call exactly when it stands between its
own tags. -/
theorem inside_path_iff (hpath : Plain path) (after : Text) :
    inside pathKey (after ++ closeTag contentKey) = path ↔ path ++ closeTag pathKey <+: after := by
  have htag : IsTag (closeTag pathKey) := isTag_closeTag (by decide)
  have hbracket : '<' ∉ path := fun hmem => (hpath _ hmem).2.2.1 rfl
  constructor
  · intro h
    unfold inside at h
    cases hfind : find (closeTag pathKey) (after ++ closeTag contentKey) with
    | none =>
        rw [hfind] at h
        exact absurd (h ▸ (by simp [closeTag] : '<' ∈ after ++ closeTag contentKey)) hbracket
    | some stop =>
        rw [hfind] at h
        have h : (after ++ closeTag contentKey).take stop = path := h
        have hoccurs := (find_eq_some_iff.mp hfind).1
        by_cases hstop : stop < after.length
        · have hafter : Occurs (closeTag pathKey) after stop := htag.occurs_of_lt hoccurs hstop
          rw [List.take_append_of_le_length (by omega)] at h
          obtain ⟨rest, hrest⟩ := hafter
          refine ⟨rest, ?_⟩
          rw [← h, List.append_assoc, hrest, List.take_append_drop]
        · exfalso
          by_cases hsame : stop = after.length
          · subst hsame
            have : closeTag pathKey <+: closeTag contentKey := by
              unfold Occurs at hoccurs
              rwa [List.drop_left] at hoccurs
            revert this
            decide
          · refine hbracket (h ▸ ?_)
            rw [List.take_append, List.take_of_length_le (by omega)]
            apply List.mem_append_right
            obtain ⟨extra, hextra⟩ : ∃ extra, stop - after.length = extra + 1 :=
              ⟨stop - after.length - 1, by omega⟩
            rw [hextra]
            exact List.mem_cons_self
  · rintro ⟨rest, rfl⟩
    have hnone : find (closeTag pathKey) path = none := by
      refine find_none_of_absent fun hpresent => hbracket (hpresent.subset ?_)
      exact List.mem_cons_self
    have hhere : find (closeTag pathKey) (closeTag pathKey ++ (rest ++ closeTag contentKey)) =
        some 0 :=
      find_eq_some_iff.mpr ⟨List.prefix_append _ _, fun j hj => absurd hj (Nat.not_lt_zero _)⟩
    have hfind : find (closeTag pathKey) (path ++ closeTag pathKey ++ rest ++ closeTag contentKey) =
        some path.length := by
      rw [List.append_assoc, List.append_assoc]
      refine (htag.find_append path ((('/' :: pathKey) ++ ['>']) ++
        (rest ++ closeTag contentKey))).trans ?_
      rw [hnone, Option.none_or]
      exact congrArg (Option.map (path.length + ·)) hhere
    unfold inside
    rw [hfind]
    simp

/-! ## Reading the call back -/

/-- The arguments that the parser takes from the attribute and the body. -/
def childArgs (path content : Text) : List (Text × Text) :=
  withChildren (openTag contentKey ++ bodyContent content) [(pathKey, path)]

theorem lookup_childArgs_content (path content : Text) :
    (childArgs path content).lookup contentKey =
      some (inside contentKey (bodyContent content)) := by
  have hfound : (find (openTag contentKey) (openTag contentKey ++ bodyContent content)).isSome :=
    find_isSome_iff.mpr (List.prefix_append _ _).isInfix
  unfold childArgs
  rw [lookup_withChildren, if_pos ⟨by decide, hfound⟩, extract_content]

/-- A delegated call always has a task, and nothing else is added to the children. -/
theorem parseXmlTool_callText (content : Text) (hname : Plain name) (hpath : Plain path)
    (hblank : stripText name ≠ []) :
    ∃ args, parseXmlTool (callText name path content) = some (stripText name, args) ∧
      (stripText name ≠ delegateName → args = childArgs path content) ∧
      (stripText name = delegateName → (args.lookup taskKey).isSome) := by
  have hattrs := attributes_attrText hname hpath
  have hlookup : ([(nameKey, name), (pathKey, path)].lookup nameKey).getD [] = name := by
    simp
  have hfilter : [(nameKey, name), (pathKey, path)].filter (·.1 ≠ nameKey) = [(pathKey, path)] := by
    simp [show pathKey ≠ nameKey by decide]
  have hbody : stripList (· == '\n') (openTag contentKey ++ bodyContent content) ≠ [] := by
    intro hempty
    have hmem : '<' ∈ stripList (· == '\n') (openTag contentKey ++ bodyContent content) :=
      mem_stripList List.mem_cons_self (by decide)
    rw [hempty] at hmem
    cases hmem
  have hchildren : withChildren (openTag contentKey ++ bodyContent content) [(pathKey, path)] =
      childArgs path content := rfl
  have hwrite : ¬ (stripText name = writeFileName ∧
      (childArgs path content).lookup contentKey = none ∧
      stripList (· == '\n') (openTag contentKey ++ bodyContent content) ≠ []) := by
    rw [lookup_childArgs_content]
    simp
  unfold parseXmlTool
  rw [searchTool_callText hname hpath]
  simp only [hattrs, hlookup, hblank, if_false, hfilter, hchildren, if_neg hwrite]
  refine ⟨_, rfl, ?_, ?_⟩
  · intro hdelegate
    rw [if_neg fun h => hdelegate h.1]
  · intro hdelegate
    by_cases htask : (childArgs path content).lookup taskKey = none
    · rw [if_pos ⟨hdelegate, htask, hbody⟩, lookup_assign, if_pos rfl]
      rfl
    · rw [if_neg fun h => htask h.2.1]
      exact Option.isSome_iff_ne_none.mpr htask

theorem lookup_childArgs_of_mem {key : Text}
    (hkey : key ∈ [oldTextKey, newTextKey, commandKey, taskKey, patternKey])
    (htool : ¬ closeTag toolName <:+: content) :
    (childArgs path content).lookup key = none ↔ ¬ openTag key <:+: content := by
  have hmem : key ∈ childKeys ∧ key ≠ pathKey ∧
      key ∈ [oldTextKey, newTextKey, commandKey, taskKey, patternKey, pathKey] := by
    revert hkey
    revert key
    decide
  obtain ⟨hchild, hpath, hkey⟩ := hmem
  have hne : (key == pathKey) = false := by simpa using hpath
  unfold childArgs
  rw [lookup_withChildren, find_child_of_mem hkey htool, Option.isSome_map]
  by_cases hpresent : openTag key <:+: content
  · rw [if_pos ⟨hchild, find_isSome_iff.mpr hpresent⟩]
    simp [hpresent]
  · rw [if_neg fun h => hpresent (find_isSome_iff.mp h.2)]
    simp [hpresent, List.lookup_cons, hne]

theorem lookup_childArgs_path (hpath : Plain path) (htool : ¬ closeTag toolName <:+: content) :
    (childArgs path content).lookup pathKey = some path ↔
      ∀ start, find (openTag pathKey) content = some start →
        path ++ closeTag pathKey <+: content.drop (start + (openTag pathKey).length) := by
  have htag : IsTag (openTag pathKey) := isTag_openTag (by decide)
  have hfind := find_child_of_mem (show pathKey ∈ _ by decide) htool
  unfold childArgs
  rw [lookup_withChildren]
  cases hstart : find (openTag pathKey) content with
  | none =>
      rw [hstart] at hfind
      simp [hfind]
  | some start =>
      rw [hstart] at hfind
      have hle := (find_eq_some_iff.mp hstart).1.length_le htag.ne_nil
      have hextract : extract (openTag contentKey ++ bodyContent content) pathKey true =
          inside pathKey (content.drop (start + (openTag pathKey).length) ++ closeTag contentKey) := by
        have hbody : bodyContent content = content ++ closeTag contentKey := by
          unfold bodyContent
          rw [find_none_of_absent htool]
        unfold extract
        rw [hfind, hbody]
        simp only [Option.map_some, if_true, Nat.add_assoc, List.drop_length_add_append]
        rw [List.drop_append_of_le_length (by omega)]
      rw [hextract, if_pos ⟨by decide, by rw [hfind]; rfl⟩, Option.some.injEq,
        inside_path_iff hpath]
      simp

theorem lookup_childArgs_of_not_mem {key : Text} (hkey : key ∉ childKeys) :
    (childArgs path content).lookup key = none := by
  have hne : (key == pathKey) = false := by
    rw [beq_eq_false_iff_ne]
    intro hsame
    exact hkey (hsame ▸ by decide)
  unfold childArgs
  rw [lookup_withChildren, if_neg fun h => hkey h.1]
  simp [List.lookup_cons, hne]

/-- The arguments are those of the call exactly when the content has none of the tags that
the parser acts on. -/
theorem childArgs_iff (hpath : Plain path) :
    (∀ key, (childArgs path content).lookup key =
        if key = pathKey then some path else if key = contentKey then some content else none) ↔
      ¬ closeTag toolName <:+: content ∧ ¬ closeTag contentKey <:+: content ∧
      (∀ key ∈ [oldTextKey, newTextKey, commandKey, taskKey, patternKey],
        ¬ openTag key <:+: content) ∧
      ∀ start, find (openTag pathKey) content = some start →
        path ++ closeTag pathKey <+: content.drop (start + (openTag pathKey).length) := by
  have hothers : ∀ key ∈ [oldTextKey, newTextKey, commandKey, taskKey, patternKey],
      key ≠ pathKey ∧ key ≠ contentKey := by decide
  constructor
  · intro h
    have hcontent := h contentKey
    rw [lookup_childArgs_content, if_neg (by decide), if_pos rfl, Option.some.injEq,
      inside_bodyContent_iff] at hcontent
    refine ⟨hcontent.1, hcontent.2, ?_, ?_⟩
    · intro key hkey
      have hnone := h key
      rw [if_neg (hothers key hkey).1, if_neg (hothers key hkey).2] at hnone
      exact (lookup_childArgs_of_mem hkey hcontent.1).mp hnone
    · have hvalue := h pathKey
      rw [if_pos rfl] at hvalue
      exact (lookup_childArgs_path hpath hcontent.1).mp hvalue
  · rintro ⟨htool, hclose, hchildren, hvalue⟩ key
    by_cases hkey : key = pathKey
    · subst hkey
      rw [if_pos rfl]
      exact (lookup_childArgs_path hpath htool).mpr hvalue
    · rw [if_neg hkey]
      by_cases hkey' : key = contentKey
      · subst hkey'
        rw [if_pos rfl, lookup_childArgs_content, Option.some.injEq]
        exact (inside_bodyContent_iff content).mpr ⟨htool, hclose⟩
      · rw [if_neg hkey']
        by_cases hchild : key ∈ childKeys
        · have hother : key ∈ [oldTextKey, newTextKey, commandKey, taskKey, patternKey] := by
            simp only [childKeys, List.mem_cons, List.not_mem_nil, or_false] at hchild ⊢
            tauto
          exact (lookup_childArgs_of_mem hother htool).mpr (hchildren key hother)
        · exact lookup_childArgs_of_not_mem hchild

/-- Read as XML, the call comes back exactly when it is readable. -/
theorem xml_iff (content : Text) (hname : Plain name) (hpath : Plain path)
    (hblank : stripText name ≠ []) :
    (∃ given args, parseXmlTool (callText name path content) = some (given, args) ∧
        IsCall name path content (xmlPayload given args)) ↔ Readable name path content := by
  obtain ⟨args, hparse, hchildren, hdelegate⟩ :=
    parseXmlTool_callText content hname hpath hblank
  rw [hparse]
  constructor
  · rintro ⟨given, other, hsame, hcall⟩
    obtain ⟨rfl, rfl⟩ := Prod.mk.inj (Option.some.inj hsame)
    obtain ⟨htrimmed, hargs⟩ := (isCall_xmlPayload _ _).mp hcall
    have hname_ne : name ≠ delegateName := by
      intro hsame
      have htask := hdelegate (htrimmed.trans hsame)
      rw [hargs taskKey, if_neg (by decide), if_neg (by decide)] at htask
      cases htask
    have hnot : stripText name ≠ delegateName := by
      rw [htrimmed]
      exact hname_ne
    rw [hchildren hnot] at hargs
    obtain ⟨htool, hclose, hothers, hvalue⟩ := (childArgs_iff hpath).mp hargs
    exact ⟨htrimmed, hname_ne, htool, hclose, hothers, hvalue⟩
  · intro h
    have hnot : stripText name ≠ delegateName := by
      rw [h.trimmed]
      exact h.delegate
    refine ⟨_, _, rfl, (isCall_xmlPayload _ _).mpr ⟨h.trimmed, ?_⟩⟩
    rw [hchildren hnot]
    exact (childArgs_iff hpath).mpr ⟨h.tool, h.close, h.children, h.path⟩

end

/-- A call in XML is read back exactly, or refused, exactly when: the content carries JSON
in `<tool>` and no other call is read from it; or it carries none, and the name is blank or
the call is readable. -/
theorem xml_call_faithful_iff (loads : Text → Option Json) (name path content : Text)
    (hname : Plain name) (hpath : Plain path) :
    ExactOrRetry name path content (parseModelResponse loads (callText name path content)) ↔
      if beforeFinal (openTag toolName) content = true then
        JsonHarmless loads name path content
      else stripText name = [] ∨ Readable name path content := by
  unfold parseModelResponse
  rw [beforeFinal_callText hname hpath]
  by_cases hjson : beforeFinal (openTag toolName) content = true
  · rw [if_pos hjson, if_pos hjson]
    unfold parseJsonTool JsonHarmless
    rw [extract_callText hname hpath hjson]
    have hfinal := acceptPayload_isFinal (loads (extract (content ++ closers) toolName false))
    cases hreply : acceptPayload (loads (extract (content ++ closers) toolName false)) with
    | tool payload => simp [ExactOrRetry]
    | retry notice => simp [ExactOrRetry]
    | final answer =>
        rw [hreply] at hfinal
        cases hfinal
  · rw [if_neg hjson, if_neg hjson, if_pos (beforeFinal_toolStart_callText hname hpath)]
    by_cases hblank : stripText name = []
    · have hnone : parseXmlTool (callText name path content) = none := by
        unfold parseXmlTool
        rw [searchTool_callText hname hpath]
        simp only [attributes_attrText hname hpath]
        simp [hblank]
      rw [hnone]
      simp [ExactOrRetry, hblank]
    · obtain ⟨args, hparse, -⟩ := parseXmlTool_callText content hname hpath hblank
      have hiff := xml_iff content hname hpath hblank
      rw [hparse] at hiff ⊢
      simp only [hblank, false_or, ← hiff]
      constructor
      · intro h
        exact ⟨_, _, rfl, h⟩
      · rintro ⟨given, other, hsame, hcall⟩
        obtain ⟨rfl, rfl⟩ := Prod.mk.inj (Option.some.inj hsame)
        exact hcall

/-- A small file is written as it stands. -/
theorem smallFile_readBack :
    Plain writeFileName ∧ Plain ['a'] ∧
      ExactOrRetry writeFileName ['a'] ['x', '<', 'y']
        (parseModelResponse (fun _ => none) (callText writeFileName ['a'] ['x', '<', 'y'])) := by
  have hname : Plain writeFileName := by
    simp [Plain, writeFileName, doubleQuote, singleQuote]
  have hpath : Plain ['a'] := by
    simp [Plain, doubleQuote, singleQuote]
  refine ⟨hname, hpath, (xml_call_faithful_iff _ _ _ _ hname hpath).mpr ?_⟩
  rw [if_neg (by decide)]
  exact .inr ⟨by decide, by decide, by decide, by decide, by decide,
    fun start hstart => nomatch (hstart : none = some start)⟩

/-- A file that has a `path` element of its own. -/
def pathFile : Text := openTag pathKey ++ 'b' :: closeTag pathKey

theorem pathFile_redirected :
    ¬ ∀ (loads : Text → Option Json) (name path content : Text), Plain name → Plain path →
      ExactOrRetry name path content (parseModelResponse loads (callText name path content)) := by
  intro h
  have hreply : parseModelResponse (fun _ => none) (callText writeFileName ['a'] pathFile) =
      .tool (xmlPayload writeFileName [(pathKey, ['b']), (contentKey, pathFile)]) := rfl
  have hcall := h (fun _ => none) writeFileName ['a'] pathFile
    (by simp [Plain, writeFileName, doubleQuote, singleQuote])
    (by simp [Plain, doubleQuote, singleQuote])
  rw [hreply] at hcall
  have hpath := ((isCall_xmlPayload _ _).mp hcall).2 pathKey
  revert hpath
  decide

end Agent
end CodeCub

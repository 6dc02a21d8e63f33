import CodeCub.Python.JsonText
import CodeCub.Python.JsonEq

/-!
# Lines

`str.splitlines()`, and the line boundaries in the text of a JSON value: `json.dumps`
escapes the control characters, but with `ensure_ascii=False` it leaves the other three
boundaries of Unicode as they are.
-/

namespace Python

/-- The boundaries that `str.splitlines` knows. -/
def isLineBreak (c : Char) : Bool :=
  let n := c.toNat
  (0x0a ≤ n && n ≤ 0x0d) || (0x1c ≤ n && n ≤ 0x1e) || n == 0x85 || n == 0x2028 || n == 0x2029

/-- `c` in front of the first line. -/
def glue (c : Char) : List Str → List Str
  | [] => [[c]]
  | line :: lines => (c :: line) :: lines

/-- `text.splitlines()`. -/
def splitlines : Str → List Str
  | [] => []
  | [c] => if isLineBreak c then [[]] else [[c]]
  | c :: d :: rest =>
      if c = '\r' ∧ d = '\n' then [] :: splitlines rest
      else if isLineBreak c then [] :: splitlines (d :: rest)
      else glue c (splitlines (d :: rest))

theorem splitlines_cons {c : Char} {rest : Str} (h : isLineBreak c = false) :
    splitlines (c :: rest) = glue c (splitlines rest) := by
  have hcr : c ≠ '\r' := by
    rintro rfl
    cases h
  cases rest with
  | nil => simp [splitlines, h, glue]
  | cons d rest =>
      rw [splitlines, if_neg (fun hboth => hcr hboth.1), h]
      rfl

theorem splitlines_break {b : Char} {rest : Str} (h : isLineBreak b = true) (hcr : b ≠ '\r') :
    splitlines (b :: rest) = [] :: splitlines rest := by
  cases rest with
  | nil => simp [splitlines, h]
  | cons d rest => rw [splitlines, if_neg (fun hboth => hcr hboth.1), if_pos h]

/-- A line ends at the first boundary. -/
theorem splitlines_line {line rest : Str} {b : Char} (hline : ∀ c ∈ line, isLineBreak c = false)
    (hb : isLineBreak b = true) (hcr : b ≠ '\r') :
    splitlines (line ++ b :: rest) = line :: splitlines rest := by
  induction line with
  | nil => exact splitlines_break hb hcr
  | cons c line ih =>
      rw [List.cons_append, splitlines_cons (hline c List.mem_cons_self),
        ih fun d hd => hline d (List.mem_cons_of_mem _ hd)]
      rfl

theorem splitlines_last {line : Str} (hline : ∀ c ∈ line, isLineBreak c = false)
    (hne : line ≠ []) : splitlines line = [line] := by
  induction line with
  | nil => exact absurd rfl hne
  | cons c line ih =>
      rw [splitlines_cons (hline c List.mem_cons_self)]
      cases line with
      | nil => rfl
      | cons d line =>
          rw [ih (fun e he => hline e (List.mem_cons_of_mem _ he)) (List.cons_ne_nil _ _)]
          rfl

/-- Lines that are written with a newline each. -/
theorem splitlines_lines {lines : List Str} (h : ∀ line ∈ lines, ∀ c ∈ line, isLineBreak c = false)
    (rest : Str) :
    splitlines (lines.flatMap (fun line => line ++ ['\n']) ++ rest) = lines ++ splitlines rest := by
  induction lines with
  | nil => rfl
  | cons line lines ih =>
      rw [List.flatMap_cons, List.append_assoc, List.append_assoc, List.singleton_append,
        splitlines_line (h line List.mem_cons_self) (by decide) (by decide),
        ih fun other hother => h other (List.mem_cons_of_mem _ hother)]
      rfl

/-! ## `line.strip()` -/

/-- A line that does not begin with a blank is only cut at its end. -/
theorem stripList_prefix (c : Char) (line : Str) (hc : isSpace c = false) :
    ∃ cut, stripList isSpace (c :: line) ++ cut = c :: line ∧ stripList isSpace (c :: line) ≠ [] := by
  have hdrop : (c :: line).dropWhile isSpace = c :: line := by
    rw [List.dropWhile_cons, if_neg (by rw [hc]; decide)]
  obtain ⟨cut, hcut⟩ := List.rdropWhile_prefix isSpace (c :: line)
  refine ⟨cut, by rw [stripList, hdrop, hcut], ?_⟩
  intro hnil
  have hmem := mem_stripList (p := isSpace) (List.mem_cons_self (a := c) (l := line)) hc
  rw [hnil] at hmem
  cases hmem

/-- Nothing is stripped from the text of an object. -/
theorem strip_dumpsWith_obj {F : Type} [FiniteFloat F] (encoder : Encoder)
    (fields : List (Str × Json Str F)) :
    stripList isSpace (dumpsWith encoder (.obj fields)) = dumpsWith encoder (.obj fields) := by
  apply stripList_of_ends
  · obtain ⟨rest, hrest⟩ := dumpsWith_obj_head encoder fields
    rw [hrest]
    intro c hc
    cases hc
    rfl
  · obtain ⟨init, hinit⟩ := dumpsWith_obj_last encoder fields
    rw [hinit, List.getLast?_concat]
    intro c hc
    cases hc
    rfl

/-! ## Characters of the text of a value -/

/-- The line boundaries that are no control characters of ASCII. -/
def isSeparator (c : Char) : Bool := c.toNat == 0x85 || c.toNat == 0x2028 || c.toNat == 0x2029

theorem isSeparator_of_isLineBreak {c : Char} (h : isLineBreak c = true) (hc : 0x20 ≤ c.toNat) :
    isSeparator c = true := by
  simp only [isLineBreak, isSeparator, Bool.or_eq_true, Bool.and_eq_true, decide_eq_true_eq,
    beq_iff_eq] at h ⊢
  omega

theorem isLineBreak_of_isSeparator {c : Char} (h : isSeparator c = true) : isLineBreak c = true := by
  simp only [isLineBreak, isSeparator, Bool.or_eq_true, Bool.and_eq_true, decide_eq_true_eq,
    beq_iff_eq] at h ⊢
  omega

theorem wide_of_isSeparator {c : Char} (h : isSeparator c = true) : 0x80 ≤ c.toNat := by
  simp only [isSeparator, Bool.or_eq_true, beq_iff_eq] at h
  omega

/-- Printed by `json.dumps` for its own sake: a printable character of ASCII. -/
def Printed (c : Char) : Prop := 0x20 ≤ c.toNat ∧ c.toNat < 0x80

instance (c : Char) : Decidable (Printed c) := inferInstanceAs (Decidable (_ ∧ _))

theorem printed_hexDigit : ∀ n < 16, Printed (hexDigit n) := by decide

/-- A character is written as itself or by printable characters of ASCII. -/
theorem mem_escapeChar {c d : Char} (h : d ∈ escapeChar c) :
    Printed d ∨ (d = c ∧ 0x20 ≤ c.toNat) := by
  unfold escapeChar at h
  split at h
  · next hc =>
      left
      rcases hc with rfl | rfl
      · simp only [List.mem_cons, List.not_mem_nil, or_false] at h
        rcases h with rfl | rfl
        · decide
        · decide
      · simp only [List.mem_cons, List.not_mem_nil, or_false, or_self] at h
        rw [h]
        decide
  iterate 5
    split at h
    · left
      simp only [List.mem_cons, List.not_mem_nil, or_false] at h
      rcases h with rfl | rfl
      · decide
      · decide
  split at h
  · next hsmall =>
      left
      simp only [List.mem_cons, List.not_mem_nil, or_false] at h
      rcases h with rfl | rfl | rfl | rfl | rfl | rfl
      · decide
      · decide
      · decide
      · decide
      · exact printed_hexDigit _ (by omega)
      · exact printed_hexDigit _ (by omega)
  · next hlarge =>
      right
      rw [List.mem_singleton] at h
      exact ⟨h, by omega⟩

theorem escapeChar_wide {c : Char} (h : 0x80 ≤ c.toNat) : escapeChar c = [c] := by
  have hquote : c ≠ quote := by
    rintro rfl
    exact absurd h (by decide)
  have hback : c ≠ backslash := by
    rintro rfl
    exact absurd h (by decide)
  simp only [escapeChar, hquote, hback, or_self, if_false]
  rw [if_neg (by omega), if_neg (by omega), if_neg (by omega), if_neg (by omega), if_neg (by omega),
    if_neg (by omega)]

/-- What is written of the texts `ts`: printable characters of ASCII and the characters
of the texts, all of them that are not ASCII. -/
structure Spells (text : Str) (ts : List Str) : Prop where
  only : ∀ c ∈ text, Printed c ∨ (0x20 ≤ c.toNat ∧ ∃ t ∈ ts, c ∈ t)
  wide : ∀ t ∈ ts, ∀ c ∈ t, 0x80 ≤ c.toNat → c ∈ text

theorem Spells.printed {text : Str} (h : ∀ c ∈ text, Printed c) : Spells text [] where
  only c hc := Or.inl (h c hc)
  wide t ht := by cases ht

theorem Spells.append {a b : Str} {ts us : List Str} (ha : Spells a ts) (hb : Spells b us) :
    Spells (a ++ b) (ts ++ us) where
  only c hc := by
    rcases List.mem_append.mp hc with hc | hc
    · rcases ha.only c hc with h | ⟨h, t, ht, hct⟩
      · exact Or.inl h
      · exact Or.inr ⟨h, t, List.mem_append_left _ ht, hct⟩
    · rcases hb.only c hc with h | ⟨h, t, ht, hct⟩
      · exact Or.inl h
      · exact Or.inr ⟨h, t, List.mem_append_right _ ht, hct⟩
  wide t ht c hc hwide := by
    rcases List.mem_append.mp ht with ht | ht
    · exact List.mem_append_left _ (ha.wide t ht c hc hwide)
    · exact List.mem_append_right _ (hb.wide t ht c hc hwide)

theorem Spells.cons {text : Str} {ts : List Str} {c : Char} (h : Spells text ts)
    (hc : Printed c) : Spells (c :: text) ts := by
  have hsingle : Spells [c] [] := Spells.printed (by
    intro d hd
    rw [List.mem_singleton.mp hd]
    exact hc)
  exact hsingle.append h

theorem spells_dumpsStr (s : Str) : Spells (dumpsStr s) [s] where
  only c hc := by
    simp only [dumpsStr, List.cons_append, List.mem_cons, List.mem_append, List.mem_flatMap,
      List.not_mem_nil, or_false] at hc
    rcases hc with rfl | ⟨d, hd, hc⟩ | rfl
    · exact Or.inl (by decide)
    · rcases mem_escapeChar hc with h | ⟨rfl, h⟩
      · exact Or.inl h
      · exact Or.inr ⟨h, s, List.mem_singleton_self s, hd⟩
    · exact Or.inl (by decide)
  wide t ht c hc hwide := by
    rw [List.mem_singleton.mp ht] at hc
    have hmem : c ∈ s.flatMap escapeChar := by
      refine List.mem_flatMap.mpr ⟨c, hc, ?_⟩
      rw [escapeChar_wide hwide]
      exact List.mem_singleton_self c
    exact List.mem_append_left _ (List.mem_cons_of_mem _ hmem)

theorem printed_of_isDigit {c : Char} (h : isDigit c = true) : Printed c := by
  simp only [isDigit, Bool.and_eq_true, decide_eq_true_eq, Char.le_def] at h
  have hlow : 0x30 ≤ c.toNat := h.1
  have hhigh : c.toNat ≤ 0x39 := h.2
  exact ⟨by omega, by omega⟩

theorem isSpace_of_isDigit {c : Char} (h : isDigit c = true) : isSpace c = false := by
  have hprinted := printed_of_isDigit h
  simp only [isDigit, Bool.and_eq_true, decide_eq_true_eq, Char.le_def] at h
  have hlow : 0x30 ≤ c.toNat := h.1
  have hhigh : c.toNat ≤ 0x39 := h.2
  simp only [isSpace, Bool.or_eq_false_iff, Bool.and_eq_false_iff, decide_eq_false_iff_not,
    beq_eq_false_iff_ne]
  omega

theorem IsInteger.printed {text : Str} (h : IsInteger text) : ∀ c ∈ text, Printed c := by
  obtain ⟨sign, digits, rfl, hsign, hdigits, _⟩ := h
  intro c hc
  rcases List.mem_append.mp hc with hc | hc
  · rcases hsign with rfl | rfl
    · cases hc
    · rw [List.mem_singleton.mp hc]
      decide
  · exact printed_of_isDigit (hdigits c hc)

theorem IsFraction.printed {text : Str} (h : IsFraction text) : ∀ c ∈ text, Printed c := by
  rcases h with rfl | ⟨digits, rfl, _, hdigits⟩
  · intro c hc
    cases hc
  · intro c hc
    rcases List.mem_cons.mp hc with rfl | hc
    · decide
    · exact printed_of_isDigit (hdigits c hc)

theorem IsExponent.printed {text : Str} (h : IsExponent text) : ∀ c ∈ text, Printed c := by
  rcases h with rfl | ⟨e, sign, digits, rfl, he, hsign, _, hdigits⟩
  · intro c hc
    cases hc
  · intro c hc
    rcases List.mem_append.mp hc with hc | hc
    · rcases List.mem_cons.mp hc with rfl | hc
      · rcases he with rfl | rfl
        · decide
        · decide
      · rcases hsign with rfl | rfl | rfl
        · cases hc
        · rw [List.mem_singleton.mp hc]
          decide
        · rw [List.mem_singleton.mp hc]
          decide
    · exact printed_of_isDigit (hdigits c hc)

section Text

variable {F : Type} [FiniteFloat F]

theorem spells_dumpsItems {items : List (Json Str F)}
    (h : ∀ item ∈ items, Spells (dumps item) item.texts) :
    Spells (dumpsItems items) (Json.textsItems items) := by
  induction items with
  | nil => exact Spells.printed (by rw [dumpsItems]; decide)
  | cons item items ih =>
      rw [List.forall_mem_cons] at h
      exact ((h.1.append (ih h.2)).cons (by decide)).cons (by decide)

theorem spells_dumpsFields {fields : List (Str × Json Str F)}
    (h : ∀ field ∈ fields, Spells (dumps field.2) field.2.texts) :
    Spells (dumpsFields fields) (Json.textsFields fields) := by
  induction fields with
  | nil => exact Spells.printed (by rw [dumpsFields]; decide)
  | cons field fields ih =>
      rw [List.forall_mem_cons] at h
      have hrest := ((h.1.append (ih h.2)).cons (c := ' ') (by decide)).cons (c := ':') (by decide)
      exact (((spells_dumpsStr field.1).append hrest).cons (by decide)).cons (by decide)

/-- The text of a value spells its strings. -/
theorem spells_dumps : ∀ v : Json Str F, Spells (dumps v) v.texts := by
  refine Json.induction ?_ ?_ ?_
  · intro v harr hobj
    match v with
    | .null => exact Spells.printed (by rw [dumps]; decide)
    | .bool true => exact Spells.printed (by rw [dumps]; decide)
    | .bool false => exact Spells.printed (by rw [dumps]; decide)
    | .int n =>
        rw [dumps]
        exact Spells.printed (isInteger_intRepr n).printed
    | .float x =>
        obtain ⟨i, f, e, hrepr, hi, hf, he, _⟩ := FiniteFloat.repr_literal x
        rw [dumps, hrepr]
        refine Spells.printed fun c hc => ?_
        rcases List.mem_append.mp hc with hc | hc
        · rcases List.mem_append.mp hc with hc | hc
          · exact hi.printed c hc
          · exact hf.printed c hc
        · exact he.printed c hc
    | .nonFinite .nan => exact Spells.printed (by rw [dumps]; decide)
    | .nonFinite .inf => exact Spells.printed (by rw [dumps]; decide)
    | .nonFinite .negInf => exact Spells.printed (by rw [dumps]; decide)
    | .str s =>
        rw [dumps]
        exact spells_dumpsStr s
    | .arr items => exact absurd rfl (harr items)
    | .obj fields => exact absurd rfl (hobj fields)
  · intro items ih
    cases items with
    | nil => exact Spells.printed (by rw [dumps]; decide)
    | cons item items =>
        rw [List.forall_mem_cons] at ih
        rw [dumps]
        exact (ih.1.append (spells_dumpsItems ih.2)).cons (by decide)
  · intro fields ih
    cases fields with
    | nil => exact Spells.printed (by rw [dumps]; decide)
    | cons field fields =>
        rw [List.forall_mem_cons] at ih
        have hrest := ((ih.1.append (spells_dumpsFields ih.2)).cons (c := ' ') (by decide)).cons
          (c := ':') (by decide)
        exact ((spells_dumpsStr field.1).append hrest).cons (by decide)

/-- None of the strings of the value holds a separator. -/
def Json.Separated (v : Json Str F) : Prop := ∀ s ∈ v.texts, ∀ c ∈ s, isSeparator c = false

instance (v : Json Str F) : Decidable v.Separated :=
  inferInstanceAs (Decidable (∀ s ∈ v.texts, ∀ c ∈ s, isSeparator c = false))

omit [FiniteFloat F] in
theorem not_separated {v : Json Str F} (h : ¬ v.Separated) :
    ∃ s ∈ v.texts, ∃ c ∈ s, isSeparator c = true := by
  rw [Json.Separated] at h
  push Not at h
  obtain ⟨s, hs, c, hc, hsep⟩ := h
  exact ⟨s, hs, c, hc, by simpa using hsep⟩

/-- The text of a value is one line exactly when its strings hold no separator. -/
theorem one_line_iff (v : Json Str F) :
    (∀ c ∈ dumps v, isLineBreak c = false) ↔ v.Separated := by
  have hspells := spells_dumps v
  constructor
  · intro h s hs c hc
    by_contra hsep
    rw [Bool.not_eq_false] at hsep
    have hmem := hspells.wide s hs c hc (wide_of_isSeparator hsep)
    have hbreak := isLineBreak_of_isSeparator hsep
    rw [h c hmem] at hbreak
    cases hbreak
  · intro h c hc
    by_contra hbreak
    rw [Bool.not_eq_false] at hbreak
    rcases hspells.only c hc with hprinted | ⟨hlow, s, hs, hcs⟩
    · have hwide := wide_of_isSeparator (isSeparator_of_isLineBreak hbreak hprinted.1)
      have hnarrow := hprinted.2
      omega
    · have hsep := isSeparator_of_isLineBreak hbreak hlow
      rw [h s hs c hcs] at hsep
      cases hsep

/-- The text of a value holds no control character. -/
theorem low_dumps (v : Json Str F) : ∀ c ∈ dumps v, 0x20 ≤ c.toNat := by
  intro c hc
  rcases (spells_dumps v).only c hc with hprinted | ⟨hlow, _⟩
  · exact hprinted.1
  · exact hlow

theorem exists_first {α : Type} {P : α → Prop} {l : List α} {x : α} (hx : x ∈ l) (hP : ¬ P x) :
    ∃ good bad rest, l = good ++ bad :: rest ∧ (∀ y ∈ good, P y) ∧ ¬ P bad := by
  induction l with
  | nil => cases hx
  | cons y l ih =>
      by_cases hy : P y
      · rcases List.mem_cons.mp hx with rfl | hx
        · exact absurd hy hP
        · obtain ⟨good, bad, rest, rfl, hgood, hbad⟩ := ih hx
          exact ⟨y :: good, bad, rest, rfl, List.forall_mem_cons.mpr ⟨hy, hgood⟩, hbad⟩
      · exact ⟨[], y, l, rfl, by simp, hy⟩

/-- An object with a separator is torn apart: its first line is no JSON text. -/
theorem splitlines_torn {fields : List (Str × Json Str F)}
    (hrep : (Json.obj fields).Representable) (hsep : ¬ (Json.obj fields).Separated) (rest : Str) :
    ∃ line more, splitlines (dumps (.obj fields) ++ rest) = line :: more ∧
      stripList isSpace line ≠ [] ∧ (loads (stripList isSpace line) : Option (Json Str F)) = none := by
  have hone : ¬ ∀ c ∈ dumps (.obj fields), isLineBreak c = false :=
    fun h => hsep ((one_line_iff _).mp h)
  push Not at hone
  obtain ⟨c, hc, hbreak⟩ := hone
  obtain ⟨pre, b, post, htext, hpre, hb⟩ :=
    exists_first (P := fun c => isLineBreak c = false) hc hbreak
  rw [Bool.not_eq_false] at hb
  have hlow : 0x20 ≤ b.toNat := by
    apply low_dumps (.obj fields)
    rw [htext]
    exact List.mem_append_right _ List.mem_cons_self
  have hcr : b ≠ '\r' := by
    rintro rfl
    exact absurd hlow (by decide)
  obtain ⟨tail, hhead⟩ := dumpsWith_obj_head .plain fields
  rw [dumpsWith_plain] at hhead
  obtain ⟨pre', rfl⟩ : ∃ pre', pre = '{' :: pre' := by
    rw [hhead] at htext
    cases pre with
    | nil =>
        injection htext with hsame
        rw [← hsame] at hb
        cases hb
    | cons d pre' =>
        injection htext with hsame
        exact ⟨pre', by rw [← hsame]⟩
  -- The torn line begins the text of an object and does not end it.
  obtain ⟨cut, hcut, hne⟩ := stripList_prefix '{' pre' (by decide)
  have hbegins : stripList isSpace ('{' :: pre') ++ (cut ++ b :: post) = dumps (.obj fields) := by
    rw [← List.append_assoc, hcut]
    exact htext.symm
  refine ⟨'{' :: pre', splitlines (post ++ rest), ?_, hne, loads_prefix hrep hbegins (by simp)⟩
  rw [htext, List.append_assoc]
  exact splitlines_line hpre hb hcr

end Text

end Python

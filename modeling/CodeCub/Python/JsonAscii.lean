import CodeCub.Python.JsonText
import CodeCub.Python.Lines

/-!
# JSON in ASCII

`json.dumps(value)` as it is called without arguments: every character of a string that
is not printable ASCII is written as an escape, one outside the basic plane as the
escapes of its two surrogates.  The text is one line of ASCII, whatever the strings are,
and `json.loads` reads the value back.
-/

namespace Python

/-! ## Characters -/

/-- `\\u{0:04x}`. -/
def unicodeEscape (n : Nat) : Str :=
  [backslash, 'u', hexDigit (n / 0x1000), hexDigit (n / 0x100 % 16), hexDigit (n / 16 % 16),
    hexDigit (n % 16)]

/-- `ESCAPE_ASCII`. -/
def asciiChar (c : Char) : Str :=
  if c.toNat < 0x7f then escapeChar c
  else if c.toNat < 0x10000 then unicodeEscape c.toNat
  else unicodeEscape (0xd800 + (c.toNat - 0x10000) / 0x400) ++
    unicodeEscape (0xdc00 + (c.toNat - 0x10000) % 0x400)

theorem hexValue_hexDigit : ∀ d < 16, hexValue (hexDigit d) = some d := by decide

example : unicodeEscape 0x20ac = "\\u20ac".toList := by decide +kernel

theorem hex4_unicodeEscape {n : Nat} (h : n < 0x10000) :
    hex4 (hexDigit (n / 0x1000)) (hexDigit (n / 0x100 % 16)) (hexDigit (n / 16 % 16))
      (hexDigit (n % 16)) = some n := by
  have h1 := hexValue_hexDigit (n / 0x1000) (by omega)
  have h2 := hexValue_hexDigit (n / 0x100 % 16) (by omega)
  have h3 := hexValue_hexDigit (n / 16 % 16) (by omega)
  have h4 := hexValue_hexDigit (n % 16) (by omega)
  have hsum : (n / 0x1000 * 16 + n / 0x100 % 16) * 256 + n / 16 % 16 * 16 + n % 16 = n := by omega
  simp only [hex4, h1, h2, h3, h4]
  exact congrArg some hsum

/-- A character is no surrogate. -/
theorem scalar_toNat (c : Char) : c.toNat < 0xd800 ∨ (0xdfff < c.toNat ∧ c.toNat < 0x110000) :=
  c.valid

theorem scanString_asciiChar (c : Char) (rest : Str) :
    scanString (asciiChar c ++ rest) = consChar c (scanString rest) := by
  have hscalar := scalar_toNat c
  unfold asciiChar
  split
  · exact scanString_escapeChar c rest
  split
  · next hbasic =>
      have hscan := scanString_unicode rest (hex4_unicodeEscape hbasic) (by omega) (by omega)
      rw [Char.ofNat_toNat] at hscan
      exact hscan
  · next hbasic =>
      have hscan := scanString_pair rest
        (hex4_unicodeEscape (n := 0xd800 + (c.toNat - 0x10000) / 0x400) (by omega)) (by omega)
        (hex4_unicodeEscape (n := 0xdc00 + (c.toNat - 0x10000) % 0x400) (by omega))
        ⟨rfl, by omega, by omega⟩
      have hback : 0x10000 + (0xd800 + (c.toNat - 0x10000) / 0x400 - 0xd800) * 0x400 +
          (0xdc00 + (c.toNat - 0x10000) % 0x400 - 0xdc00) = c.toNat := by omega
      rw [hback, Char.ofNat_toNat] at hscan
      exact hscan

theorem printed_unicodeEscape {n : Nat} (h : n < 0x10000) : ∀ c ∈ unicodeEscape n, Printed c := by
  have hdigit := printed_hexDigit
  intro c hc
  simp only [unicodeEscape, List.mem_cons, List.not_mem_nil, or_false] at hc
  rcases hc with rfl | rfl | rfl | rfl | rfl | rfl
  · decide
  · decide
  · exact hdigit _ (by omega)
  · exact hdigit _ (by omega)
  · exact hdigit _ (by omega)
  · exact hdigit _ (by omega)

theorem printed_asciiChar (c : Char) : ∀ d ∈ asciiChar c, Printed d := by
  have hscalar := scalar_toNat c
  intro d hd
  unfold asciiChar at hd
  split at hd
  · next hnarrow =>
      rcases mem_escapeChar hd with hprinted | ⟨rfl, hlow⟩
      · exact hprinted
      · exact ⟨hlow, by omega⟩
  split at hd
  · next hbasic => exact printed_unicodeEscape hbasic d hd
  · rcases List.mem_append.mp hd with hd | hd
    · exact printed_unicodeEscape (by omega) d hd
    · exact printed_unicodeEscape (by omega) d hd

/-! ## Values -/

/-- `ensure_ascii=True`. -/
def Encoder.ascii : Encoder where
  body s := s.flatMap asciiChar ++ [quote]
  reads s rest := by
    rw [List.append_assoc]
    induction s with
    | nil => exact scanString_quote rest
    | cons c s ih =>
        rw [List.flatMap_cons, List.append_assoc, scanString_asciiChar, ih]
        rfl

theorem Encoder.printed_ascii (s : Str) : ∀ c ∈ Encoder.ascii.text s, Printed c := by
  intro c hc
  simp only [Encoder.text, Encoder.ascii, List.mem_cons, List.mem_append, List.mem_flatMap,
    List.not_mem_nil, or_false] at hc
  rcases hc with rfl | ⟨d, _, hc⟩ | rfl
  · decide
  · exact printed_asciiChar d c hc
  · decide

section Text

variable {F : Type} [FiniteFloat F]

/-- `json.dumps(value)`. -/
def asciiDumps (v : Json Str F) : Str := dumpsWith .ascii v

theorem loads_asciiDumps {v : Json Str F} (hv : v.Representable) : loads (asciiDumps v) = some v :=
  loads_dumpsWith .ascii hv

theorem loads_asciiPrefix {fields : List (Str × Json Str F)} {text more : Str}
    (hv : (Json.obj fields).Representable) (htext : text ++ more = asciiDumps (.obj fields))
    (hmore : more ≠ []) : (loads text : Option (Json Str F)) = none :=
  loads_prefixWith .ascii hv htext hmore

theorem printed_cons {c : Char} {text : Str} (hc : Printed c) (h : ∀ d ∈ text, Printed d) :
    ∀ d ∈ c :: text, Printed d :=
  List.forall_mem_cons.mpr ⟨hc, h⟩

theorem printed_append {a b : Str} (ha : ∀ c ∈ a, Printed c) (hb : ∀ c ∈ b, Printed c) :
    ∀ c ∈ a ++ b, Printed c :=
  List.forall_mem_append.mpr ⟨ha, hb⟩

theorem printed_repr (x : F) : ∀ c ∈ FiniteFloat.repr x, Printed c := by
  obtain ⟨i, f, e, hrepr, hi, hf, he, _⟩ := FiniteFloat.repr_literal x
  rw [hrepr]
  exact printed_append (printed_append hi.printed hf.printed) he.printed

theorem printed_asciiItems {items : List (Json Str F)}
    (h : ∀ item ∈ items, ∀ c ∈ asciiDumps item, Printed c) :
    ∀ c ∈ dumpsItemsWith .ascii items, Printed c := by
  induction items with
  | nil => exact printed_cons (by decide) (List.forall_mem_nil _)
  | cons item items ih =>
      rw [List.forall_mem_cons] at h
      exact printed_cons (by decide) (printed_cons (by decide) (printed_append h.1 (ih h.2)))

theorem printed_asciiField {key rest : Str} {value : Json Str F}
    (hvalue : ∀ c ∈ asciiDumps value, Printed c) (hrest : ∀ c ∈ rest, Printed c) :
    ∀ c ∈ Encoder.ascii.text key ++ ':' :: ' ' :: (asciiDumps value ++ rest), Printed c :=
  printed_append (Encoder.printed_ascii key)
    (printed_cons (by decide) (printed_cons (by decide) (printed_append hvalue hrest)))

theorem printed_asciiFields {fields : List (Str × Json Str F)}
    (h : ∀ field ∈ fields, ∀ c ∈ asciiDumps field.2, Printed c) :
    ∀ c ∈ dumpsFieldsWith .ascii fields, Printed c := by
  induction fields with
  | nil => exact printed_cons (by decide) (List.forall_mem_nil _)
  | cons field fields ih =>
      rw [List.forall_mem_cons] at h
      exact printed_cons (by decide) (printed_cons (by decide) (printed_asciiField h.1 (ih h.2)))

/-- The text of a value is printable ASCII, whatever its strings are. -/
theorem printed_asciiDumps : ∀ v : Json Str F, ∀ c ∈ asciiDumps v, Printed c := by
  refine Json.induction ?_ ?_ ?_
  · intro v harr hobj
    match v with
    | .null => exact (by decide : ∀ c ∈ ['n', 'u', 'l', 'l'], Printed c)
    | .bool true => exact (by decide : ∀ c ∈ ['t', 'r', 'u', 'e'], Printed c)
    | .bool false => exact (by decide : ∀ c ∈ ['f', 'a', 'l', 's', 'e'], Printed c)
    | .int n => exact (isInteger_intRepr n).printed
    | .float x => exact printed_repr x
    | .nonFinite .nan => exact (by decide : ∀ c ∈ NonFinite.nan.text, Printed c)
    | .nonFinite .inf => exact (by decide : ∀ c ∈ NonFinite.inf.text, Printed c)
    | .nonFinite .negInf => exact (by decide : ∀ c ∈ NonFinite.negInf.text, Printed c)
    | .str s => exact Encoder.printed_ascii s
    | .arr items => exact absurd rfl (harr items)
    | .obj fields => exact absurd rfl (hobj fields)
  · intro items ih
    cases items with
    | nil => exact (by decide : ∀ c ∈ ['[', ']'], Printed c)
    | cons item items =>
        rw [List.forall_mem_cons] at ih
        exact printed_cons (by decide) (printed_append ih.1 (printed_asciiItems ih.2))
  · intro fields ih
    cases fields with
    | nil => exact (by decide : ∀ c ∈ ['{', '}'], Printed c)
    | cons field fields =>
        rw [List.forall_mem_cons] at ih
        exact printed_cons (by decide) (printed_asciiField ih.1 (printed_asciiFields ih.2))

end Text

end Python

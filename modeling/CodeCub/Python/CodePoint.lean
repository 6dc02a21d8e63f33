import CodeCub.Python.Utf8

/-!
# Strings with lone surrogates

A `str` may hold half of a surrogate pair.  Such a string has no UTF-8 form, and no
bytes are read as one.
-/

namespace Python

/-- A symbol of a `str`: a character, or the surrogate `0xd800 + low`. -/
inductive CodePoint
  | char (c : Char)
  | surrogate (low : Fin 2048)
  deriving DecidableEq, Repr

def ofStr (text : Str) : List CodePoint := text.map CodePoint.char

/-- The characters of a string, `none` if there is a surrogate among them. -/
def toStr : List CodePoint → Option Str
  | [] => some []
  | .char c :: rest => (toStr rest).map (c :: ·)
  | .surrogate _ :: _ => none

/-- `text.encode("utf-8")`, `none` for a `UnicodeEncodeError`. -/
def encodeStrict (text : List CodePoint) : Option Bytes := (toStr text).map encodeUtf8

/-- `data.decode("utf-8")`, `none` for a `UnicodeDecodeError`. -/
def decodeStrict (data : Bytes) : Option Str :=
  match scanUtf8 data with
  | some (text, false) => some text
  | _ => none

theorem ofStr_append (a b : Str) : ofStr (a ++ b) = ofStr a ++ ofStr b := List.map_append

theorem char_mem_ofStr {c : Char} {text : Str} : CodePoint.char c ∈ ofStr text ↔ c ∈ text := by
  simp [ofStr]

theorem toStr_ofStr (text : Str) : toStr (ofStr text) = some text := by
  induction text with
  | nil => rfl
  | cons c text ih =>
      show (toStr (ofStr text)).map (c :: ·) = _
      rw [ih]
      rfl

theorem toStr_eq_some_iff {text : List CodePoint} {chars : Str} :
    toStr text = some chars ↔ text = ofStr chars := by
  constructor
  · intro h
    induction text generalizing chars with
    | nil =>
        cases h
        rfl
    | cons first rest ih =>
        cases first with
        | char c =>
            obtain ⟨others, hothers, rfl⟩ := Option.map_eq_some_iff.mp h
            rw [ih hothers]
            rfl
        | surrogate low => cases h
  · rintro rfl
    exact toStr_ofStr chars

theorem ofStr_injective {a b : Str} (h : ofStr a = ofStr b) : a = b := by
  have htext := toStr_ofStr a
  rw [h, toStr_ofStr] at htext
  exact (Option.some.inj htext).symm

/-- The parts of a string of characters are such strings. -/
theorem toStr_append_eq_some {a b : List CodePoint} {chars : Str}
    (h : toStr (a ++ b) = some chars) :
    ∃ front back, a = ofStr front ∧ b = ofStr back ∧ chars = front ++ back := by
  rw [toStr_eq_some_iff, ofStr, eq_comm] at h
  obtain ⟨front, back, rfl, hfront, hback⟩ := List.map_eq_append_iff.mp h
  exact ⟨front, back, hfront.symm, hback.symm, rfl⟩

theorem encodeStrict_ofStr (text : Str) : encodeStrict (ofStr text) = some (encodeUtf8 text) := by
  rw [encodeStrict, toStr_ofStr]
  rfl

theorem encodeStrict_eq_some_iff {text : List CodePoint} {data : Bytes} :
    encodeStrict text = some data ↔ ∃ chars, text = ofStr chars ∧ data = encodeUtf8 chars := by
  unfold encodeStrict
  rw [Option.map_eq_some_iff]
  constructor
  · rintro ⟨chars, htext, rfl⟩
    exact ⟨chars, toStr_eq_some_iff.mp htext, rfl⟩
  · rintro ⟨chars, rfl, rfl⟩
    exact ⟨chars, toStr_ofStr chars, rfl⟩

theorem encodeStrict_injective {a b : List CodePoint} {data : Bytes}
    (ha : encodeStrict a = some data) (hb : encodeStrict b = some data) : a = b := by
  obtain ⟨chars, rfl, hchars⟩ := encodeStrict_eq_some_iff.mp ha
  obtain ⟨others, rfl, hothers⟩ := encodeStrict_eq_some_iff.mp hb
  rw [encodeUtf8_injective (hchars.symm.trans hothers)]

/-- What replaces a part of a string of characters decides whether the string can be
encoded. -/
theorem encodeStrict_replaced_isSome {before old new after : List CodePoint} {chars : Str}
    (h : before ++ old ++ after = ofStr chars) :
    (encodeStrict (before ++ new ++ after)).isSome ↔ (toStr new).isSome := by
  rw [← toStr_eq_some_iff] at h
  obtain ⟨first, back, hfirst, rfl, -⟩ := toStr_append_eq_some h
  rw [← toStr_eq_some_iff] at hfirst
  obtain ⟨front, -, rfl, -, -⟩ := toStr_append_eq_some hfirst
  constructor
  · intro hwhole
    obtain ⟨data, hdata⟩ := Option.isSome_iff_exists.mp hwhole
    obtain ⟨all, hall, -⟩ := encodeStrict_eq_some_iff.mp hdata
    obtain ⟨left, -, hleft, -, -⟩ := toStr_append_eq_some (toStr_eq_some_iff.mpr hall)
    obtain ⟨-, middle, -, rfl, -⟩ := toStr_append_eq_some (toStr_eq_some_iff.mpr hleft)
    rw [toStr_ofStr]
    rfl
  · intro hnew
    obtain ⟨middle, hmiddle⟩ := Option.isSome_iff_exists.mp hnew
    rw [toStr_eq_some_iff] at hmiddle
    rw [hmiddle, ← ofStr_append, ← ofStr_append, encodeStrict_ofStr]
    rfl

theorem decodeStrict_eq_some_iff {data : Bytes} {text : Str} :
    decodeStrict data = some text ↔ data = encodeUtf8 text := by
  unfold decodeStrict
  constructor
  · intro h
    split at h
    · next hscan =>
        cases h
        exact (encodeUtf8_of_scanUtf8 hscan).symm
    · cases h
  · rintro rfl
    rw [scanUtf8_encodeUtf8]

end Python

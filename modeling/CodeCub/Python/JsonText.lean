import CodeCub.Python.Json

/-!
# The text of a JSON value

What `dumps` writes, `loads` reads back, whatever follows it; and what `loads` has
read of a text it reads again when the text goes on, unless it stopped in a number.
So no text of an object is the beginning of another one.
-/

namespace Python

/-! ## Strings -/

/-- What the first character of the rest of a string decides. -/
theorem scanString_cons (c : Char) (rest : Str) : scanString (c :: rest) =
    if c = quote then some ([], rest)
    else if c = backslash then
      match rest with
      | 'u' :: p :: q :: r :: s :: more =>
          match hex4 p q r s with
          | none => none
          | some n =>
              if 0xd800 ≤ n ∧ n ≤ 0xdbff then
                match more with
                | b :: 'u' :: p' :: q' :: r' :: s' :: more' =>
                    match hex4 p' q' r' s' with
                    | none => none
                    | some m =>
                        if b = backslash ∧ 0xdc00 ≤ m ∧ m ≤ 0xdfff then
                          consChar (Char.ofNat (0x10000 + (n - 0xd800) * 0x400 + (m - 0xdc00)))
                            (scanString more')
                        else none
                | _ => none
              else if 0xdc00 ≤ n ∧ n ≤ 0xdfff then none
              else consChar (Char.ofNat n) (scanString more)
      | e :: more =>
          match unescape e with
          | none => none
          | some d => consChar d (scanString more)
      | [] => none
    else if c.toNat < 0x20 then none
    else consChar c (scanString rest) := by
  rw [scanString.eq_def]
  rfl

theorem scanString_quote (rest : Str) : scanString (quote :: rest) = some ([], rest) := by
  rw [scanString_cons]
  exact if_pos rfl

theorem scanString_plain {c : Char} {rest : Str} (hquote : c ≠ quote) (hback : c ≠ backslash)
    (hcontrol : ¬ c.toNat < 0x20) : scanString (c :: rest) = consChar c (scanString rest) := by
  rw [scanString_cons, if_neg hquote, if_neg hback, if_neg hcontrol]

theorem scanString_escape {e d : Char} {rest : Str} (h : unescape e = some d) :
    scanString (backslash :: e :: rest) = consChar d (scanString rest) := by
  have hu : e ≠ 'u' := by
    rintro rfl
    have hnone : unescape 'u' = none := by decide
    rw [hnone] at h
    cases h
  rw [scanString_cons, if_neg (by decide), if_pos rfl]
  split
  · next he =>
      injection he with he
      exact absurd he hu
  · next he =>
      cases he
      simp only [h]
  · next he => cases he

theorem scanString_unicode {p q r s : Char} {n : Nat} (rest : Str) (h : hex4 p q r s = some n)
    (hhigh : ¬ (0xd800 ≤ n ∧ n ≤ 0xdbff)) (hlow : ¬ (0xdc00 ≤ n ∧ n ≤ 0xdfff)) :
    scanString (backslash :: 'u' :: p :: q :: r :: s :: rest) =
      consChar (Char.ofNat n) (scanString rest) := by
  rw [scanString_cons, if_neg (by decide), if_pos rfl]
  simp only [h, if_neg hhigh, if_neg hlow]

theorem scanString_pair {p q r s b p' q' r' s' : Char} {n m : Nat} (rest : Str)
    (h : hex4 p q r s = some n) (hhigh : 0xd800 ≤ n ∧ n ≤ 0xdbff) (h' : hex4 p' q' r' s' = some m)
    (hlow : b = backslash ∧ 0xdc00 ≤ m ∧ m ≤ 0xdfff) :
    scanString (backslash :: 'u' :: p :: q :: r :: s :: b :: 'u' :: p' :: q' :: r' :: s' :: rest) =
      consChar (Char.ofNat (0x10000 + (n - 0xd800) * 0x400 + (m - 0xdc00))) (scanString rest) := by
  rw [scanString_cons, if_neg (by decide), if_pos rfl]
  simp only [h, if_pos hhigh, h', if_pos hlow]

theorem hex4_hexDigit : ∀ n < 0x20, hex4 '0' '0' (hexDigit (n / 16)) (hexDigit (n % 16)) = some n := by
  decide

theorem unescape_of_toNat {c e : Char} {n : Nat} (hc : c.toNat = n)
    (he : unescape e = some (Char.ofNat n)) : unescape e = some c := by
  rw [he, ← hc, Char.ofNat_toNat]

theorem scanString_escapeChar (c : Char) (rest : Str) :
    scanString (escapeChar c ++ rest) = consChar c (scanString rest) := by
  unfold escapeChar
  split
  · next h =>
      rcases h with rfl | rfl
      · exact scanString_escape (by decide)
      · exact scanString_escape (by decide)
  split
  · next h => exact scanString_escape (unescape_of_toNat h (by decide))
  split
  · next h => exact scanString_escape (unescape_of_toNat h (by decide))
  split
  · next h => exact scanString_escape (unescape_of_toNat h (by decide))
  split
  · next h => exact scanString_escape (unescape_of_toNat h (by decide))
  split
  · next h => exact scanString_escape (unescape_of_toNat h (by decide))
  split
  · next h =>
      have hscan := scanString_unicode rest (hex4_hexDigit c.toNat h) (by omega) (by omega)
      rw [Char.ofNat_toNat] at hscan
      exact hscan
  · next h _ _ _ _ _ hlarge =>
      push Not at h
      exact scanString_plain h.1 h.2 hlarge

theorem scanString_dumps (s rest : Str) :
    scanString (s.flatMap escapeChar ++ quote :: rest) = some (s, rest) := by
  induction s with
  | nil => exact scanString_quote rest
  | cons c s ih =>
      rw [List.flatMap_cons, List.append_assoc, scanString_escapeChar, ih]
      rfl

/-- How the strings of a value are written: what follows the opening quote is read back,
whatever comes after it. -/
structure Encoder where
  body : Str → Str
  reads : ∀ s rest, scanString (body s ++ rest) = some (s, rest)

def Encoder.text (encoder : Encoder) (s : Str) : Str := quote :: encoder.body s

/-- `ensure_ascii=False`. -/
def Encoder.plain : Encoder where
  body s := s.flatMap escapeChar ++ [quote]
  reads s rest := by
    rw [List.append_assoc]
    exact scanString_dumps s rest

theorem consChar_append {c : Char} {scanned scanned' : Option (Str × Str)} {more s rest : Str}
    (h : consChar c scanned = some (s, rest))
    (hscan : ∀ {s rest}, scanned = some (s, rest) → scanned' = some (s, rest ++ more)) :
    consChar c scanned' = some (s, rest ++ more) := by
  cases hs : scanned with
  | none =>
      rw [hs] at h
      cases h
  | some result =>
      rw [hs] at h
      cases h
      rw [hscan hs]
      rfl

/-- A string that was read to its closing quote is read the same way when the text
goes on. -/
theorem scanString_append {text s rest : Str} (more : Str)
    (h : scanString text = some (s, rest)) : scanString (text ++ more) = some (s, rest ++ more) := by
  fun_induction scanString text generalizing s rest with
  | case2 text =>
      cases h
      exact scanString_quote _
  | case5 _ _ _ _ _ hn hhigh _ _ _ _ _ _ _ hm hlow _ ih =>
      exact (scanString_pair _ hn hhigh hm hlow).trans (consChar_append h ih)
  | case9 _ _ _ _ _ _ hn hhigh hlow _ ih =>
      exact (scanString_unicode _ hn hhigh hlow).trans (consChar_append h ih)
  | case11 _ _ _ _ hd _ ih => exact (scanString_escape hd).trans (consChar_append h ih)
  | case14 _ _ hquote hback hcontrol ih =>
      exact (scanString_plain hquote hback hcontrol).trans (consChar_append h ih)
  | _ => cases h

/-! ## Numbers -/

/-- No number goes on with `c`. -/
def EndsNumber (c : Char) : Prop := isDigit c = false ∧ c ≠ '.' ∧ c ≠ 'e' ∧ c ≠ 'E'

/-- No number before `rest` goes on into it. -/
def Stops (rest : Str) : Prop := ∀ c ∈ rest.head?, EndsNumber c

theorem stops_nil : Stops [] := by
  intro c hc
  cases hc

theorem stops_cons {c : Char} (rest : Str) (h : EndsNumber c) : Stops (c :: rest) := by
  intro d hd
  cases hd
  exact h

theorem Stops.not_digit {rest : Str} (h : Stops rest) : ∀ c ∈ rest.head?, isDigit c = false :=
  fun c hc => (h c hc).1

theorem scanDigits_of_digits {digits rest : Str} (hdigits : ∀ c ∈ digits, isDigit c = true)
    (hrest : ∀ c ∈ rest.head?, isDigit c = false) : scanDigits (digits ++ rest) = (digits, rest) := by
  have hnil : rest.takeWhile isDigit = [] ∧ rest.dropWhile isDigit = rest := by
    cases rest with
    | nil => exact ⟨rfl, rfl⟩
    | cons c more => simp [hrest c rfl]
  rw [scanDigits, List.takeWhile_append_of_pos hdigits, List.dropWhile_append_of_pos hdigits,
    hnil.1, hnil.2, List.append_nil]

theorem scanDigits_append {text : Str} (more : Str) (h : (scanDigits text).2 ≠ []) :
    scanDigits (text ++ more) = ((scanDigits text).1, (scanDigits text).2 ++ more) := by
  have hall : ¬ (text.takeWhile isDigit).length = text.length := by
    intro hlength
    have hsplit := congrArg List.length (List.takeWhile_append_dropWhile (p := isDigit) (l := text))
    rw [List.length_append, hlength] at hsplit
    have hzero : (text.dropWhile isDigit).length = 0 := by omega
    exact h (List.length_eq_zero_iff.mp hzero)
  have hne : ¬ (text.dropWhile isDigit).isEmpty = true := by
    rw [List.isEmpty_iff]
    exact h
  simp only [scanDigits]
  rw [List.takeWhile_append, List.dropWhile_append, if_neg hall, if_neg hne]

theorem not_minus_of_isDigit {c : Char} (h : isDigit c = true) : c ≠ '-' := by
  rintro rfl
  cases h

theorem scanNat_of_digits {digits rest : Str} (hdigits : ∀ c ∈ digits, isDigit c = true)
    (hlead : digits = ['0'] ∨ ∃ c more, digits = c :: more ∧ c ≠ '0')
    (hrest : ∀ c ∈ rest.head?, isDigit c = false) : scanNat (digits ++ rest) = some (digits, rest) := by
  rcases hlead with rfl | ⟨c, more, rfl, hzero⟩
  · rfl
  · have hmore := scanDigits_of_digits (fun d hd => hdigits d (List.mem_cons_of_mem _ hd)) hrest
    rw [List.cons_append, scanNat, if_neg hzero, if_pos (hdigits c List.mem_cons_self), hmore]

theorem scanInteger_of_isInteger {text rest : Str} (h : IsInteger text)
    (hrest : ∀ c ∈ rest.head?, isDigit c = false) : scanInteger (text ++ rest) = some (text, rest) := by
  obtain ⟨sign, digits, rfl, hsign, hdigits, hlead⟩ := h
  have hscan := scanNat_of_digits hdigits hlead hrest
  rcases hsign with rfl | rfl
  · obtain ⟨c, more, rfl⟩ : ∃ c more, digits = c :: more := by
      rcases hlead with rfl | ⟨c, more, rfl, _⟩
      · exact ⟨_, _, rfl⟩
      · exact ⟨_, _, rfl⟩
    rw [List.nil_append, List.cons_append, scanInteger,
      if_neg (not_minus_of_isDigit (hdigits c List.mem_cons_self))]
    exact hscan
  · show (scanNat (digits ++ rest)).map _ = _
    rw [hscan]
    rfl

theorem scanFraction_of_isFraction {text rest : Str} (h : IsFraction text)
    (hrest : ∀ c ∈ rest.head?, isDigit c = false) (hdot : ∀ c ∈ rest.head?, c ≠ '.') :
    scanFraction (text ++ rest) = (text, rest) := by
  rcases h with rfl | ⟨digits, rfl, hne, hdigits⟩
  · cases rest with
    | nil => rfl
    | cons c more => exact if_neg fun hc => hdot c rfl hc.1
  · rw [List.cons_append, scanFraction, scanDigits_of_digits hdigits hrest, if_pos ⟨rfl, hne⟩]

theorem scanSign_of_digits {sign digits : Str} (hsign : sign = [] ∨ sign = ['-'] ∨ sign = ['+'])
    (hne : digits ≠ []) (hdigits : ∀ c ∈ digits, isDigit c = true) (rest : Str) :
    scanSign (sign ++ (digits ++ rest)) = (sign, digits ++ rest) := by
  rcases hsign with rfl | rfl | rfl
  · cases digits with
    | nil => exact absurd rfl hne
    | cons c more =>
        apply if_neg
        have hc := hdigits c List.mem_cons_self
        rintro (rfl | rfl)
        · cases hc
        · cases hc
  · rfl
  · rfl

theorem scanExponent_of_isExponent {text rest : Str} (h : IsExponent text) (hrest : Stops rest) :
    scanExponent (text ++ rest) = (text, rest) := by
  rcases h with rfl | ⟨e, sign, digits, rfl, he, hsign, hne, hdigits⟩
  · cases rest with
    | nil => rfl
    | cons c more =>
        apply if_neg
        rintro ⟨rfl | rfl, _⟩
        · exact (hrest _ rfl).2.2.1 rfl
        · exact (hrest _ rfl).2.2.2 rfl
  · rw [List.append_assoc, List.cons_append, scanExponent]
    simp only [scanSign_of_digits hsign hne hdigits, scanDigits_of_digits hdigits hrest.not_digit]
    rw [if_pos ⟨he, hne⟩]

/-- After the integer comes a fraction, an exponent or the end of the number. -/
theorem head_exponent {text rest : Str} (h : IsExponent text) (hrest : Stops rest) :
    ∀ c ∈ (text ++ rest).head?, isDigit c = false ∧ c ≠ '.' := by
  rcases h with rfl | ⟨e, sign, digits, rfl, he, _⟩
  · exact fun c hc => ⟨(hrest c hc).1, (hrest c hc).2.1⟩
  · intro c hc
    cases hc
    rcases he with rfl | rfl
    · decide
    · decide

theorem head_fraction {text rest : Str} (h : IsFraction text)
    (hrest : ∀ c ∈ rest.head?, isDigit c = false) : ∀ c ∈ (text ++ rest).head?, isDigit c = false := by
  rcases h with rfl | ⟨digits, rfl, _⟩
  · exact hrest
  · intro c hc
    cases hc
    rfl

section Text

variable {F : Type} [FiniteFloat F]

/-- The three parts of a number literal are found again. -/
theorem scanNumber_of_parts {i f e rest : Str} (hi : IsInteger i) (hf : IsFraction f)
    (he : IsExponent e) (hrest : Stops rest) :
    (scanNumber (i ++ f ++ e ++ rest) : Option (Json Str F × Str)) =
      some (if f = [] ∧ e = [] then .int (intOf i) else floatOf (i ++ f ++ e), rest) := by
  have hexp := head_exponent he hrest
  have hfrac := head_fraction hf fun c hc => (hexp c hc).1
  rw [scanNumber, List.append_assoc, List.append_assoc, scanInteger_of_isInteger hi hfrac]
  simp only [Option.map_some, scanFraction_of_isFraction hf (fun c hc => (hexp c hc).1)
    (fun c hc => (hexp c hc).2), scanExponent_of_isExponent he hrest]
  split
  · rfl
  · rfl

theorem toDigits_lead (n : Nat) :
    Nat.toDigits 10 n = ['0'] ∨ ∃ c rest, Nat.toDigits 10 n = c :: rest ∧ c ≠ '0' := by
  induction n using Nat.strong_induction_on with
  | _ n ih =>
      by_cases hsmall : n < 10
      · rw [Nat.toDigits_of_lt_base hsmall]
        have hall : ∀ d < 10, [Nat.digitChar d] = ['0'] ∨ Nat.digitChar d ≠ '0' := by decide
        rcases hall n hsmall with h | h
        · exact Or.inl h
        · exact Or.inr ⟨_, _, rfl, h⟩
      · right
        rw [Nat.toDigits_of_base_le (by omega) (by omega)]
        rcases ih (n / 10) (by omega) with h | ⟨c, rest, h, hne⟩
        · have hvalue := Nat.ofDigitChars_ten_toDigits (n := n / 10)
          rw [h] at hvalue
          have hzero : n / 10 = 0 := hvalue.symm
          omega
        · rw [h]
          exact ⟨c, _, rfl, hne⟩

theorem isDigit_of_mem_toDigits {n : Nat} {c : Char} (h : c ∈ Nat.toDigits 10 n) :
    isDigit c = true := by
  have hdigit := Nat.isDigit_of_mem_toDigits (by decide) (by decide) h
  simpa [isDigit, Char.isDigit, Char.le_def] using hdigit

theorem isInteger_intRepr (n : Int) : IsInteger (intRepr n) := by
  rw [intRepr]
  split
  · exact ⟨['-'], _, rfl, Or.inr rfl, fun _ => isDigit_of_mem_toDigits, toDigits_lead _⟩
  · exact ⟨[], _, rfl, Or.inl rfl, fun _ => isDigit_of_mem_toDigits, toDigits_lead _⟩

theorem intOf_intRepr (n : Int) : intOf (intRepr n) = n := by
  rw [intRepr]
  split
  · show -((Nat.ofDigitChars 10 (Nat.toDigits 10 n.natAbs) 0 : Nat) : Int) = n
    rw [Nat.ofDigitChars_ten_toDigits]
    omega
  · have hminus : ∀ rest, Nat.toDigits 10 n.natAbs ≠ '-' :: rest := by
      intro rest h
      have hmem : '-' ∈ Nat.toDigits 10 n.natAbs := by
        rw [h]
        exact List.mem_cons_self
      exact absurd (isDigit_of_mem_toDigits hmem) (by decide)
    rw [intOf.eq_def]
    split
    · next h => exact absurd h (hminus _)
    · rw [Nat.ofDigitChars_ten_toDigits]
      omega

theorem scanNumber_int (n : Int) {rest : Str} (h : Stops rest) :
    (scanNumber (intRepr n ++ rest) : Option (Json Str F × Str)) = some (.int n, rest) := by
  have hscan := scanNumber_of_parts (F := F) (isInteger_intRepr n) (Or.inl rfl) (Or.inl rfl) h
  rw [List.append_nil, List.append_nil, if_pos ⟨rfl, rfl⟩, intOf_intRepr] at hscan
  exact hscan

theorem scanNumber_float (x : F) {rest : Str} (h : Stops rest) :
    scanNumber (FiniteFloat.repr x ++ rest) = some (.float x, rest) := by
  obtain ⟨i, f, e, hrepr, hi, hf, he, hne⟩ := FiniteFloat.repr_literal x
  have hscan := scanNumber_of_parts (F := F) hi hf he h
  rw [← hrepr, if_neg, floatOf, FiniteFloat.ofText_repr] at hscan
  · exact hscan
  · rintro ⟨rfl, rfl⟩
    exact hne rfl

/-! ## Values -/

theorem assign_new {V : Type} {key : Str} {value : V} {d : List (Str × V)}
    (h : key ∉ d.map Prod.fst) : assign key value d = d ++ [(key, value)] := by
  induction d with
  | nil => rfl
  | cons entry rest ih =>
      rw [List.map_cons, List.mem_cons, not_or] at h
      rw [assign, if_neg (Ne.symm h.1), ih h.2]
      rfl

theorem dict_of_nodup {V : Type} {pairs : List (Str × V)} (h : (pairs.map Prod.fst).Nodup) :
    dict pairs = pairs := by
  have hfold : ∀ rest done : List (Str × V), ((done ++ rest).map Prod.fst).Nodup →
      rest.foldl (fun d pair => assign pair.1 pair.2 d) done = done ++ rest := by
    intro rest
    induction rest with
    | nil => intro done _; rw [List.append_nil]; rfl
    | cons pair rest ih =>
        intro done hnodup
        have hsplit : done ++ pair :: rest = (done ++ [pair]) ++ rest := by simp
        have hnew : pair.1 ∉ done.map Prod.fst := by
          rw [List.map_append, List.map_cons, List.nodup_append] at hnodup
          exact fun hmem => hnodup.2.2 _ hmem _ List.mem_cons_self rfl
        rw [List.foldl_cons, assign_new hnew, hsplit, ih _ (hsplit ▸ hnodup)]
  exact hfold pairs [] h

theorem skipBlanks_cons {c : Char} (rest : Str) (h : isBlank c = false) :
    skipBlanks (c :: rest) = c :: rest := by
  rw [skipBlanks, List.dropWhile_cons, if_neg (by rw [h]; decide)]

/-- How the text of a number starts. -/
def StartsNumber (c : Char) : Prop := c = '-' ∨ isDigit c = true

theorem StartsNumber.ne {c d : Char} (h : StartsNumber c) (hd : ¬ StartsNumber d) : c ≠ d := by
  rintro rfl
  exact hd h

instance (c : Char) : Decidable (StartsNumber c) := inferInstanceAs (Decidable (_ ∨ _))

theorem IsInteger.head {text : Str} (h : IsInteger text) :
    ∃ c rest, text = c :: rest ∧ StartsNumber c := by
  obtain ⟨sign, digits, rfl, rfl | rfl, hdigits, hlead⟩ := h
  · rcases hlead with rfl | ⟨c, rest, rfl, _⟩
    · exact ⟨_, _, rfl, Or.inr (hdigits _ List.mem_cons_self)⟩
    · exact ⟨_, _, rfl, Or.inr (hdigits _ List.mem_cons_self)⟩
  · exact ⟨_, _, rfl, Or.inl rfl⟩

/-- A value starts with no white space and closes nothing. -/
def StartsValue (c : Char) : Prop := isBlank c = false ∧ c ≠ ']' ∧ c ≠ '}'

instance (c : Char) : Decidable (StartsValue c) := inferInstanceAs (Decidable (_ ∧ _))

theorem StartsNumber.startsValue {c : Char} (h : StartsNumber c) : StartsValue c := by
  refine ⟨?_, h.ne (by decide), h.ne (by decide)⟩
  have hne : c ≠ ' ' ∧ c ≠ '\t' ∧ c ≠ '\n' ∧ c ≠ '\r' :=
    ⟨h.ne (by decide), h.ne (by decide), h.ne (by decide), h.ne (by decide)⟩
  simp [isBlank, hne]

mutual

/-- `json.dumps(value)` where `encoder` writes the strings. -/
def dumpsWith (encoder : Encoder) : Json Str F → Str
  | .null => ['n', 'u', 'l', 'l']
  | .bool true => ['t', 'r', 'u', 'e']
  | .bool false => ['f', 'a', 'l', 's', 'e']
  | .int n => intRepr n
  | .float x => FiniteFloat.repr x
  | .nonFinite x => x.text
  | .str s => encoder.text s
  | .arr [] => ['[', ']']
  | .arr (item :: items) => '[' :: (dumpsWith encoder item ++ dumpsItemsWith encoder items)
  | .obj [] => ['{', '}']
  | .obj ((key, value) :: fields) =>
      '{' :: (encoder.text key ++ ':' :: ' ' ::
        (dumpsWith encoder value ++ dumpsFieldsWith encoder fields))

def dumpsItemsWith (encoder : Encoder) : List (Json Str F) → Str
  | [] => [']']
  | item :: items => ',' :: ' ' :: (dumpsWith encoder item ++ dumpsItemsWith encoder items)

def dumpsFieldsWith (encoder : Encoder) : List (Str × Json Str F) → Str
  | [] => ['}']
  | (key, value) :: fields =>
      ',' :: ' ' :: (encoder.text key ++ ':' :: ' ' ::
        (dumpsWith encoder value ++ dumpsFieldsWith encoder fields))

end

mutual

/-- `dumps` writes the strings with `ensure_ascii=False`. -/
theorem dumpsWith_plain : ∀ v : Json Str F, dumpsWith .plain v = dumps v
  | .null => rfl
  | .bool true => rfl
  | .bool false => rfl
  | .int _ => rfl
  | .float _ => rfl
  | .nonFinite _ => rfl
  | .str _ => rfl
  | .arr [] => rfl
  | .arr (item :: items) =>
      congrArg (List.cons '[') (congrArg₂ List.append (dumpsWith_plain item) (dumpsItemsWith_plain items))
  | .obj [] => rfl
  | .obj ((key, value) :: fields) =>
      congrArg (fun text => '{' :: (dumpsStr key ++ ':' :: ' ' :: text))
        (congrArg₂ List.append (dumpsWith_plain value) (dumpsFieldsWith_plain fields))

theorem dumpsItemsWith_plain : ∀ items : List (Json Str F),
    dumpsItemsWith .plain items = dumpsItems items
  | [] => rfl
  | item :: items =>
      congrArg (fun text => ',' :: ' ' :: text)
        (congrArg₂ List.append (dumpsWith_plain item) (dumpsItemsWith_plain items))

theorem dumpsFieldsWith_plain : ∀ fields : List (Str × Json Str F),
    dumpsFieldsWith .plain fields = dumpsFields fields
  | [] => rfl
  | (key, value) :: fields =>
      congrArg (fun text => ',' :: ' ' :: (dumpsStr key ++ ':' :: ' ' :: text))
        (congrArg₂ List.append (dumpsWith_plain value) (dumpsFieldsWith_plain fields))

end

/-- A number, from its first character to its last. -/
theorem number_text (encoder : Encoder) (v : Json Str F)
    (h : (∃ n, v = .int n) ∨ ∃ x, v = .float x) :
    (∃ c rest, dumpsWith encoder v = c :: rest ∧ StartsNumber c) ∧
      ∀ rest, Stops rest → scanNumber (dumpsWith encoder v ++ rest) = some (v, rest) := by
  rcases h with ⟨n, rfl⟩ | ⟨x, rfl⟩
  · exact ⟨(isInteger_intRepr n).head, fun rest => scanNumber_int n⟩
  · refine ⟨?_, fun rest => scanNumber_float x⟩
    obtain ⟨i, f, e, hrepr, hi, _⟩ := FiniteFloat.repr_literal x
    obtain ⟨c, rest, rfl, hc⟩ := hi.head
    exact ⟨c, _, hrepr, hc⟩

theorem dumpsWith_head (encoder : Encoder) (v : Json Str F) :
    ∃ c rest, dumpsWith encoder v = c :: rest ∧ StartsValue c := by
  match v with
  | .null => exact ⟨_, _, rfl, by decide⟩
  | .bool true => exact ⟨_, _, rfl, by decide⟩
  | .bool false => exact ⟨_, _, rfl, by decide⟩
  | .int n =>
      obtain ⟨c, rest, htext, hc⟩ := (number_text encoder (.int n : Json Str F) (Or.inl ⟨n, rfl⟩)).1
      exact ⟨c, rest, htext, hc.startsValue⟩
  | .float x =>
      obtain ⟨c, rest, htext, hc⟩ := (number_text encoder (.float x) (Or.inr ⟨x, rfl⟩)).1
      exact ⟨c, rest, htext, hc.startsValue⟩
  | .nonFinite .nan => exact ⟨_, _, rfl, by decide⟩
  | .nonFinite .inf => exact ⟨_, _, rfl, by decide⟩
  | .nonFinite .negInf => exact ⟨_, _, rfl, by decide⟩
  | .str s => exact ⟨quote, _, rfl, by decide⟩
  | .arr [] => exact ⟨_, _, rfl, by decide⟩
  | .arr (item :: items) => exact ⟨_, _, rfl, by decide⟩
  | .obj [] => exact ⟨_, _, rfl, by decide⟩
  | .obj (field :: fields) => exact ⟨_, _, rfl, by decide⟩

theorem skipBlanks_dumpsWith (encoder : Encoder) (v : Json Str F) (rest : Str) :
    skipBlanks (dumpsWith encoder v ++ rest) = dumpsWith encoder v ++ rest := by
  obtain ⟨c, more, htext, hc⟩ := dumpsWith_head encoder v
  rw [htext, List.cons_append, skipBlanks_cons _ hc.1]

theorem stops_dumpsItemsWith (encoder : Encoder) (items : List (Json Str F)) (rest : Str) :
    Stops (dumpsItemsWith encoder items ++ rest) := by
  cases items with
  | nil => exact stops_cons _ (by unfold EndsNumber; decide)
  | cons item items => exact stops_cons _ (by unfold EndsNumber; decide)

theorem stops_dumpsFieldsWith (encoder : Encoder) (fields : List (Str × Json Str F)) (rest : Str) :
    Stops (dumpsFieldsWith encoder fields ++ rest) := by
  cases fields with
  | nil => exact stops_cons _ (by unfold EndsNumber; decide)
  | cons field fields => exact stops_cons _ (by unfold EndsNumber; decide)

theorem dumpsWith_obj_head (encoder : Encoder) (fields : List (Str × Json Str F)) :
    ∃ rest, dumpsWith encoder (.obj fields) = '{' :: rest := by
  cases fields with
  | nil => exact ⟨_, rfl⟩
  | cons field fields => exact ⟨_, rfl⟩

theorem dumpsFieldsWith_last (encoder : Encoder) (fields : List (Str × Json Str F)) :
    ∃ init, dumpsFieldsWith encoder fields = init ++ ['}'] := by
  induction fields with
  | nil => exact ⟨[], rfl⟩
  | cons field fields ih =>
      obtain ⟨init, hinit⟩ := ih
      refine ⟨',' :: ' ' :: (encoder.text field.1 ++ ':' :: ' ' ::
        (dumpsWith encoder field.2 ++ init)), ?_⟩
      show ',' :: ' ' :: (encoder.text field.1 ++ ':' :: ' ' ::
        (dumpsWith encoder field.2 ++ dumpsFieldsWith encoder fields)) = _
      rw [hinit]
      simp

theorem dumpsWith_obj_last (encoder : Encoder) (fields : List (Str × Json Str F)) :
    ∃ init, dumpsWith encoder (.obj fields) = init ++ ['}'] := by
  cases fields with
  | nil => exact ⟨['{'], rfl⟩
  | cons field fields =>
      obtain ⟨init, hinit⟩ := dumpsFieldsWith_last encoder fields
      refine ⟨'{' :: (encoder.text field.1 ++ ':' :: ' ' ::
        (dumpsWith encoder field.2 ++ init)), ?_⟩
      show '{' :: (encoder.text field.1 ++ ':' :: ' ' ::
        (dumpsWith encoder field.2 ++ dumpsFieldsWith encoder fields)) = _
      rw [hinit]
      simp

/-! ## The scanners -/

theorem scanValue_nil (n : Nat) : (scanValue n [] : Option (Json Str F × Str)) = none := by
  cases n with
  | zero => rfl
  | succ n => rfl

theorem scanValue_string (n : Nat) (rest : Str) :
    (scanValue (n + 1) (quote :: rest) : Option (Json Str F × Str)) =
      (scanString rest).map fun result => (.str result.1, result.2) := rfl

theorem scanValue_object (n : Nat) (rest : Str) :
    (scanValue (n + 1) ('{' :: rest) : Option (Json Str F × Str)) =
      match skipBlanks rest with
      | '}' :: more => some (.obj [], more)
      | text => (scanFields n text).map fun result => (.obj (dict result.1), result.2) := rfl

theorem scanValue_fields (n : Nat) {rest : Str} (h : ∀ more, skipBlanks rest ≠ '}' :: more) :
    (scanValue (n + 1) ('{' :: rest) : Option (Json Str F × Str)) =
      (scanFields n (skipBlanks rest)).map fun result => (.obj (dict result.1), result.2) := by
  rw [scanValue_object]
  split
  · next more hmore => exact absurd hmore (h more)
  · rfl

theorem scanValue_array (n : Nat) (rest : Str) :
    (scanValue (n + 1) ('[' :: rest) : Option (Json Str F × Str)) =
      match skipBlanks rest with
      | ']' :: more => some (.arr [], more)
      | text => (scanItems n text).map fun result => (.arr result.1, result.2) := rfl

theorem scanValue_items (n : Nat) {rest : Str} (h : ∀ more, skipBlanks rest ≠ ']' :: more) :
    (scanValue (n + 1) ('[' :: rest) : Option (Json Str F × Str)) =
      (scanItems n (skipBlanks rest)).map fun result => (.arr result.1, result.2) := by
  rw [scanValue_array]
  split
  · next more hmore => exact absurd hmore (h more)
  · rfl

theorem scanValue_atom (n : Nat) {c : Char} (rest : Str) (hquote : c ≠ quote) (hbrace : c ≠ '{')
    (hbracket : c ≠ '[') :
    (scanValue (n + 1) (c :: rest) : Option (Json Str F × Str)) = scanAtom (c :: rest) :=
  (if_neg hquote).trans ((if_neg hbrace).trans (if_neg hbracket))

theorem scanItems_succ (n : Nat) (text : Str) :
    (scanItems (n + 1) text : Option (List (Json Str F) × Str)) =
      match (scanValue n text : Option (Json Str F × Str)) with
      | none => none
      | some (item, after) =>
          match skipBlanks after with
          | ']' :: more => some ([item], more)
          | ',' :: more =>
              (scanItems n (skipBlanks more)).map fun result => (item :: result.1, result.2)
          | _ => none := rfl

/-- An array goes on after each item with the next one or with its closing bracket. -/
theorem scanItems_eq_some {n : Nat} {text rest : Str} {items : List (Json Str F)} :
    scanItems (n + 1) text = some (items, rest) ↔
      ∃ item after, scanValue n text = some (item, after) ∧
        ((skipBlanks after = ']' :: rest ∧ items = [item]) ∨
          ∃ more items', skipBlanks after = ',' :: more ∧
            scanItems n (skipBlanks more) = some (items', rest) ∧ items = item :: items') := by
  rw [scanItems_succ]
  constructor
  · intro h
    split at h
    · cases h
    · next item after hvalue =>
        refine ⟨item, after, hvalue, ?_⟩
        split at h
        · next more hclose =>
            cases h
            exact Or.inl ⟨hclose, rfl⟩
        · next more hcomma =>
            obtain ⟨⟨items', rest'⟩, hitems, hresult⟩ := Option.map_eq_some_iff.mp h
            cases hresult
            exact Or.inr ⟨more, items', hcomma, hitems, rfl⟩
        · cases h
  · rintro ⟨item, after, hvalue, ⟨hclose, rfl⟩ | ⟨more, items', hcomma, hitems, rfl⟩⟩
    · simp only [hvalue, hclose]
    · simp only [hvalue, hcomma, hitems]
      rfl

theorem scanFields_quote (n : Nat) (chars : Str) :
    (scanFields (n + 1) (quote :: chars) : Option (List (Str × Json Str F) × Str)) =
      match scanString chars with
      | none => none
      | some (key, rest) =>
          match skipBlanks rest with
          | ':' :: more =>
              match (scanValue n (skipBlanks more) : Option (Json Str F × Str)) with
              | none => none
              | some (value, rest) =>
                  match skipBlanks rest with
                  | '}' :: more => some ([(key, value)], more)
                  | ',' :: more =>
                      (scanFields n (skipBlanks more)).map fun result =>
                        ((key, value) :: result.1, result.2)
                  | _ => none
          | _ => none := rfl

/-- An object goes on after each field with the next one or with its closing brace. -/
theorem scanFields_eq_some {n : Nat} {text rest : Str} {fields : List (Str × Json Str F)} :
    scanFields (n + 1) text = some (fields, rest) ↔
      ∃ chars key afterKey afterColon value after, text = quote :: chars ∧
        scanString chars = some (key, afterKey) ∧ skipBlanks afterKey = ':' :: afterColon ∧
        scanValue n (skipBlanks afterColon) = some (value, after) ∧
        ((skipBlanks after = '}' :: rest ∧ fields = [(key, value)]) ∨
          ∃ more fields', skipBlanks after = ',' :: more ∧
            scanFields n (skipBlanks more) = some (fields', rest) ∧
            fields = (key, value) :: fields') := by
  constructor
  · intro h
    cases text with
    | nil => cases h
    | cons c chars =>
        by_cases hc : c = quote
        · subst hc
          rw [scanFields_quote] at h
          split at h
          · cases h
          · next key afterKey hkey =>
              split at h
              · next afterColon hcolon =>
                  split at h
                  · cases h
                  · next value after hvalue =>
                      refine ⟨chars, key, afterKey, afterColon, value, after, rfl, hkey, hcolon, hvalue, ?_⟩
                      split at h
                      · next more hclose =>
                          cases h
                          exact Or.inl ⟨hclose, rfl⟩
                      · next more hcomma =>
                          obtain ⟨⟨fields', rest'⟩, hfields, hresult⟩ := Option.map_eq_some_iff.mp h
                          cases hresult
                          exact Or.inr ⟨more, fields', hcomma, hfields, rfl⟩
                      · cases h
              · cases h
        · have hnone : (scanFields (n + 1) (c :: chars) :
              Option (List (Str × Json Str F) × Str)) = none := if_neg hc
          rw [hnone] at h
          cases h
  · rintro ⟨chars, key, afterKey, afterColon, value, after, rfl, hkey, hcolon, hvalue, hrest⟩
    rw [scanFields_quote]
    rcases hrest with ⟨hclose, rfl⟩ | ⟨more, fields', hcomma, hfields, rfl⟩
    · simp only [hkey, hcolon, hvalue, hclose]
    · simp only [hkey, hcolon, hvalue, hcomma, hfields]
      rfl

theorem scanItems_nil (n : Nat) : (scanItems n [] : Option (List (Json Str F) × Str)) = none := by
  cases n with
  | zero => rfl
  | succ n =>
      cases h : (scanItems (n + 1) [] : Option (List (Json Str F) × Str)) with
      | none => rfl
      | some result =>
          obtain ⟨item, after, hvalue, _⟩ := scanItems_eq_some.mp h
          rw [scanValue_nil] at hvalue
          cases hvalue

theorem scanFields_nil (n : Nat) :
    (scanFields n [] : Option (List (Str × Json Str F) × Str)) = none := by
  cases n with
  | zero => rfl
  | succ n => rfl

/-! ## What was written is read back -/

/-- With fuel `n` the scanners read back what is at most `n` characters long. -/
structure ReadsBack (F : Type) [FiniteFloat F] (encoder : Encoder) (n : Nat) : Prop where
  value : ∀ (v : Json Str F) (rest : Str), v.Representable → (dumpsWith encoder v).length ≤ n →
    Stops rest → scanValue n (dumpsWith encoder v ++ rest) = some (v, rest)
  items : ∀ (item : Json Str F) (items : List (Json Str F)) (rest : Str), item.Representable →
    Json.RepresentableItems items →
    (dumpsWith encoder item ++ dumpsItemsWith encoder items).length ≤ n →
    scanItems n (dumpsWith encoder item ++ dumpsItemsWith encoder items ++ rest) =
      some (item :: items, rest)
  fields : ∀ (key : Str) (value : Json Str F) (fields : List (Str × Json Str F)) (rest : Str),
    value.Representable → Json.RepresentableFields fields →
    (dumpsWith encoder value ++ dumpsFieldsWith encoder fields).length + 2 ≤ n →
    scanFields n (encoder.text key ++ ':' :: ' ' ::
        (dumpsWith encoder value ++ dumpsFieldsWith encoder fields) ++ rest) =
      some ((key, value) :: fields, rest)

section ReadsBack

variable {encoder : Encoder}

theorem ReadsBack.items_succ {n : Nat} (h : ReadsBack F encoder n) (item : Json Str F)
    (items : List (Json Str F)) (rest : Str) (hitem : item.Representable)
    (hitems : Json.RepresentableItems items)
    (hlength : (dumpsWith encoder item ++ dumpsItemsWith encoder items).length ≤ n + 1) :
    scanItems (n + 1) (dumpsWith encoder item ++ dumpsItemsWith encoder items ++ rest) =
      some (item :: items, rest) := by
  rw [List.length_append] at hlength
  have hpos : 0 < (dumpsItemsWith encoder items).length := by
    cases items with
    | nil => exact Nat.succ_pos _
    | cons item items => exact Nat.succ_pos _
  have hvalue := h.value item (dumpsItemsWith encoder items ++ rest) hitem (by omega)
    (stops_dumpsItemsWith _ _ _)
  rw [← List.append_assoc] at hvalue
  refine scanItems_eq_some.mpr ⟨item, _, hvalue, ?_⟩
  cases items with
  | nil => exact Or.inl ⟨rfl, rfl⟩
  | cons next items =>
      have hnext : skipBlanks (' ' :: (dumpsWith encoder next ++ dumpsItemsWith encoder items ++ rest)) =
          dumpsWith encoder next ++ dumpsItemsWith encoder items ++ rest := by
        rw [List.append_assoc]
        exact skipBlanks_dumpsWith encoder next _
      have hshort : (dumpsWith encoder next ++ dumpsItemsWith encoder items).length ≤ n := by
        have htext : (dumpsItemsWith encoder (next :: items)).length =
            (dumpsWith encoder next ++ dumpsItemsWith encoder items).length + 2 := rfl
        omega
      refine Or.inr ⟨_, next :: items, rfl, ?_, rfl⟩
      exact (congrArg (scanItems n) hnext).trans (h.items next items rest hitems.1 hitems.2 hshort)

theorem ReadsBack.fields_succ {n : Nat} (h : ReadsBack F encoder n) (key : Str)
    (value : Json Str F) (fields : List (Str × Json Str F)) (rest : Str)
    (hvalue : value.Representable) (hfields : Json.RepresentableFields fields)
    (hlength : (dumpsWith encoder value ++ dumpsFieldsWith encoder fields).length + 2 ≤ n + 1) :
    scanFields (n + 1) (encoder.text key ++ ':' :: ' ' ::
        (dumpsWith encoder value ++ dumpsFieldsWith encoder fields) ++ rest) =
      some ((key, value) :: fields, rest) := by
  rw [List.length_append] at hlength
  have hscan := h.value value (dumpsFieldsWith encoder fields ++ rest) hvalue (by omega)
    (stops_dumpsFieldsWith _ _ _)
  rw [← skipBlanks_dumpsWith encoder value] at hscan
  have htext : encoder.text key ++ ':' :: ' ' ::
        (dumpsWith encoder value ++ dumpsFieldsWith encoder fields) ++ rest =
      quote :: (encoder.body key ++ ':' :: ' ' ::
        (dumpsWith encoder value ++ (dumpsFieldsWith encoder fields ++ rest))) := by
    simp [Encoder.text]
  refine scanFields_eq_some.mpr
    ⟨_, key, _, _, value, _, htext, encoder.reads key _, rfl, hscan, ?_⟩
  cases fields with
  | nil => exact Or.inl ⟨rfl, rfl⟩
  | cons field fields =>
      obtain ⟨next, nextValue⟩ := field
      have hshort : (dumpsWith encoder nextValue ++ dumpsFieldsWith encoder fields).length + 2 ≤ n := by
        have hlong : (dumpsFieldsWith encoder ((next, nextValue) :: fields)).length =
            (encoder.text next).length + 2 +
              (dumpsWith encoder nextValue ++ dumpsFieldsWith encoder fields).length + 2 := by
          show (encoder.text next ++ ':' :: ' ' :: _).length + 1 + 1 = _
          rw [List.length_append, List.length_cons, List.length_cons]
          omega
        omega
      exact Or.inr
        ⟨_, _, rfl, h.fields next nextValue fields rest hfields.1 hfields.2 hshort, rfl⟩

theorem scanValue_number {n : Nat} {v : Json Str F} (h : (∃ n, v = .int n) ∨ ∃ x, v = .float x)
    {rest : Str} (hrest : Stops rest) :
    scanValue (n + 1) (dumpsWith encoder v ++ rest) = some (v, rest) := by
  obtain ⟨⟨c, more, htext, hc⟩, hscan⟩ := number_text encoder v h
  have hnumber := hscan rest hrest
  rw [htext, List.cons_append] at hnumber ⊢
  rw [scanValue_atom _ _ (hc.ne (by decide)) (hc.ne (by decide)) (hc.ne (by decide)), scanAtom,
    hnumber]
  rfl

theorem ReadsBack.value_succ {n : Nat} (h : ReadsBack F encoder n) (v : Json Str F) (rest : Str)
    (hv : v.Representable) (hlength : (dumpsWith encoder v).length ≤ n + 1) (hrest : Stops rest) :
    scanValue (n + 1) (dumpsWith encoder v ++ rest) = some (v, rest) := by
  match v with
  | .null => rfl
  | .bool true => rfl
  | .bool false => rfl
  | .int m => exact scanValue_number (Or.inl ⟨m, rfl⟩) hrest
  | .float x => exact scanValue_number (Or.inr ⟨x, rfl⟩) hrest
  | .nonFinite x => exact absurd hv id
  | .str s =>
      show scanValue (n + 1) (quote :: (encoder.body s ++ rest)) = _
      rw [scanValue_string, encoder.reads]
      rfl
  | .arr [] => rfl
  | .arr (item :: items) =>
      have hshort : (dumpsWith encoder item ++ dumpsItemsWith encoder items).length ≤ n :=
        Nat.le_of_succ_le_succ hlength
      have hitems := h.items item items rest hv.1 hv.2 hshort
      obtain ⟨c, more, htext, hc⟩ := dumpsWith_head encoder item
      have hskip : skipBlanks (dumpsWith encoder item ++ dumpsItemsWith encoder items ++ rest) =
          dumpsWith encoder item ++ dumpsItemsWith encoder items ++ rest := by
        rw [List.append_assoc]
        exact skipBlanks_dumpsWith encoder item _
      show scanValue (n + 1)
        ('[' :: (dumpsWith encoder item ++ dumpsItemsWith encoder items ++ rest)) = _
      rw [scanValue_items n, hskip, hitems]
      · rfl
      · intro tail hclose
        rw [hskip, htext] at hclose
        injection hclose with hbracket
        exact hc.2.1 hbracket
  | .obj [] => rfl
  | .obj ((key, value) :: fields) =>
      have hshort : (dumpsWith encoder value ++ dumpsFieldsWith encoder fields).length + 2 ≤ n := by
        have hlong : (dumpsWith encoder (.obj ((key, value) :: fields))).length =
            (encoder.text key).length + 2 +
              (dumpsWith encoder value ++ dumpsFieldsWith encoder fields).length + 1 := by
          show (encoder.text key ++ ':' :: ' ' :: _).length + 1 = _
          rw [List.length_append, List.length_cons, List.length_cons]
          omega
        have hquote : 0 < (encoder.text key).length := Nat.succ_pos _
        omega
      have hfields := h.fields key value fields rest hv.2.1 hv.2.2 hshort
      show scanValue (n + 1) ('{' :: (encoder.text key ++ ':' :: ' ' ::
        (dumpsWith encoder value ++ dumpsFieldsWith encoder fields) ++ rest)) = _
      have hskip : skipBlanks (encoder.text key ++ ':' :: ' ' ::
          (dumpsWith encoder value ++ dumpsFieldsWith encoder fields) ++ rest) =
            encoder.text key ++ ':' :: ' ' ::
              (dumpsWith encoder value ++ dumpsFieldsWith encoder fields) ++ rest := rfl
      rw [scanValue_fields n, hskip, hfields, Option.map_some, dict_of_nodup hv.1]
      intro tail hclose
      rw [hskip] at hclose
      injection hclose with hbrace
      exact absurd hbrace (by decide)

end ReadsBack

-- The induction is on the fuel: each scanner calls the others with one less.
theorem readsBack (encoder : Encoder) (n : Nat) : ReadsBack F encoder n := by
  induction n with
  | zero =>
      refine ⟨?_, ?_, ?_⟩
      · intro v rest _ hlength _
        obtain ⟨c, more, htext, _⟩ := dumpsWith_head encoder v
        rw [htext, List.length_cons] at hlength
        omega
      · intro item items rest _ _ hlength
        obtain ⟨c, more, htext, _⟩ := dumpsWith_head encoder item
        rw [htext, List.length_append, List.length_cons] at hlength
        omega
      · intro key value fields rest _ _ hlength
        omega
  | succ n ih => exact ⟨ih.value_succ, ih.items_succ, ih.fields_succ⟩

theorem loads_dumpsWith (encoder : Encoder) {v : Json Str F} (hv : v.Representable) :
    loads (dumpsWith encoder v) = some v := by
  have hscan := (readsBack encoder ((dumpsWith encoder v).length + 1)).value v [] hv (by omega) stops_nil
  have hskip := skipBlanks_dumpsWith encoder v []
  rw [List.append_nil] at hscan hskip
  rw [loads, hskip, hscan]
  rfl

/-- What `json.dumps` writes, `json.loads` reads back. -/
theorem loads_dumps {v : Json Str F} (hv : v.Representable) : loads (dumps v) = some v := by
  rw [← dumpsWith_plain]
  exact loads_dumpsWith .plain hv

/-! ## Texts that go on -/

/-- What is left of a number that ended. -/
def Ends (rest : Str) : Prop := rest ≠ [] ∧ Stops rest

theorem scanNat_append {text digits rest : Str} (more : Str)
    (h : scanNat text = some (digits, rest)) (hne : rest ≠ []) :
    scanNat (text ++ more) = some (digits, rest ++ more) := by
  cases text with
  | nil => cases h
  | cons c text =>
      rw [scanNat] at h
      rw [List.cons_append, scanNat]
      by_cases hzero : c = '0'
      · rw [if_pos hzero] at h ⊢
        cases h
        rfl
      · rw [if_neg hzero] at h ⊢
        by_cases hdigit : isDigit c = true
        · rw [if_pos hdigit] at h ⊢
          cases h
          rw [scanDigits_append more hne]
        · rw [if_neg hdigit] at h
          cases h

theorem scanInteger_append {text integer rest : Str} (more : Str)
    (h : scanInteger text = some (integer, rest)) (hne : rest ≠ []) :
    scanInteger (text ++ more) = some (integer, rest ++ more) := by
  cases text with
  | nil => cases h
  | cons c text =>
      rw [scanInteger] at h
      rw [List.cons_append, scanInteger]
      by_cases hminus : c = '-'
      · rw [if_pos hminus] at h ⊢
        obtain ⟨⟨digits, rest'⟩, hscan, hresult⟩ := Option.map_eq_some_iff.mp h
        cases hresult
        rw [scanNat_append more hscan hne]
        rfl
      · rw [if_neg hminus] at h ⊢
        exact scanNat_append more h hne

theorem scanExponent_append {text : Str} (more : Str) (h : Ends (scanExponent text).2) :
    scanExponent (text ++ more) = ((scanExponent text).1, (scanExponent text).2 ++ more) := by
  cases text with
  | nil => exact absurd rfl h.1
  | cons c text =>
      rw [scanExponent] at h ⊢
      by_cases hexp : (c = 'e' ∨ c = 'E') ∧ (scanDigits (scanSign text).2).1 ≠ []
      · rw [if_pos hexp] at h ⊢
        have hsign : scanSign (text ++ more) = ((scanSign text).1, (scanSign text).2 ++ more) := by
          cases text with
          | nil => exact absurd rfl hexp.2
          | cons d text =>
              rw [List.cons_append, scanSign, scanSign]
              split
              · rfl
              · rfl
        rw [List.cons_append, scanExponent]
        simp only [hsign, scanDigits_append more h.1]
        rw [if_pos hexp]
      · rw [if_neg hexp] at h ⊢
        have hc := h.2 c rfl
        rw [List.cons_append, scanExponent]
        apply if_neg
        rintro ⟨rfl | rfl, _⟩
        · exact hc.2.2.1 rfl
        · exact hc.2.2.2 rfl

theorem scanExponent_ne_nil {text : Str} (h : (scanExponent text).2 ≠ []) : text ≠ [] := by
  rintro rfl
  exact h rfl

theorem scanFraction_ne_nil {text : Str} (h : (scanFraction text).2 ≠ []) : text ≠ [] := by
  rintro rfl
  exact h rfl

theorem scanFraction_append {text : Str} (more : Str)
    (h : Ends (scanExponent (scanFraction text).2).2) :
    scanFraction (text ++ more) = ((scanFraction text).1, (scanFraction text).2 ++ more) := by
  have hne := scanExponent_ne_nil h.1
  cases text with
  | nil => exact absurd rfl hne
  | cons c text =>
      rw [scanFraction] at h hne ⊢
      by_cases hfrac : c = '.' ∧ (scanDigits text).1 ≠ []
      · rw [if_pos hfrac] at h hne ⊢
        rw [List.cons_append, scanFraction, scanDigits_append more hne, if_pos hfrac]
      · rw [if_neg hfrac] at h ⊢
        rw [List.cons_append, scanFraction]
        apply if_neg
        rintro ⟨rfl, _⟩
        exact (h.2 '.' rfl).2.1 rfl

theorem scanNumber_append {text rest : Str} {v : Json Str F} (more : Str)
    (h : scanNumber text = some (v, rest)) (hends : Ends rest) :
    scanNumber (text ++ more) = some (v, rest ++ more) := by
  obtain ⟨⟨integer, after⟩, hinteger, hresult⟩ := Option.map_eq_some_iff.mp h
  simp only at hresult
  have hrest : (scanExponent (scanFraction after).2).2 = rest := by
    split at hresult
    · cases hresult
      rfl
    · cases hresult
      rfl
  rw [← hrest] at hends
  have hafter := scanFraction_ne_nil (scanExponent_ne_nil hends.1)
  rw [scanNumber, scanInteger_append more hinteger hafter]
  simp only [Option.map_some, scanFraction_append more hends, scanExponent_append more hends]
  split at hresult
  · next hint =>
      cases hresult
      rw [if_pos hint]
  · next hfloat =>
      cases hresult
      rw [if_neg hfloat]

theorem scanAtom_constant {constant : Str × Json Str F} (h : constant ∈ constants) (rest : Str) :
    scanAtom (constant.1 ++ rest) = some (constant.2, rest) := by
  simp only [constants, List.mem_cons, List.not_mem_nil, or_false] at h
  rcases h with rfl | rfl | rfl | rfl | rfl | rfl
  · rfl
  · rfl
  · rfl
  · rfl
  · rfl
  · rfl

theorem scanAtom_append {text rest : Str} {v : Json Str F} (more : Str)
    (h : scanAtom text = some (v, rest)) (hends : Ends rest) :
    scanAtom (text ++ more) = some (v, rest ++ more) := by
  rw [scanAtom] at h
  cases hnumber : (scanNumber text : Option (Json Str F × Str)) with
  | some result =>
      rw [hnumber] at h
      cases h
      rw [scanAtom, scanNumber_append more hnumber hends]
      rfl
  | none =>
      rw [hnumber, Option.orElse_none] at h
      obtain ⟨constant, hfind, hresult⟩ := Option.map_eq_some_iff.mp h
      have hprefix := List.find?_some hfind
      obtain ⟨tail, htail⟩ := List.isPrefixOf_iff_prefix.mp hprefix
      cases hresult
      rw [← htail, List.drop_left, List.append_assoc,
        scanAtom_constant (List.mem_of_find?_eq_some hfind)]

/-- A value whose end shows in its text. -/
def Json.closed : Json Str F → Bool
  | .str _ => true
  | .arr _ => true
  | .obj _ => true
  | _ => false

theorem floatOf_open (text : Str) : ((floatOf text : Json Str F)).closed = false := by
  rw [floatOf]
  split
  · rfl
  · rfl

theorem scanAtom_open {text rest : Str} {v : Json Str F} (h : scanAtom text = some (v, rest)) :
    v.closed = false := by
  rw [scanAtom] at h
  cases hnumber : (scanNumber text : Option (Json Str F × Str)) with
  | some result =>
      rw [hnumber] at h
      cases h
      obtain ⟨integer, _, hresult⟩ := Option.map_eq_some_iff.mp hnumber
      simp only at hresult
      split at hresult
      · cases hresult
        rfl
      · cases hresult
        exact floatOf_open _
  | none =>
      rw [hnumber, Option.orElse_none] at h
      obtain ⟨constant, hfind, hresult⟩ := Option.map_eq_some_iff.mp h
      cases hresult
      have hall : ∀ constant ∈ (constants : List (Str × Json Str F)), constant.2.closed = false := by
        intro constant hconstant
        simp only [constants, List.mem_cons, List.not_mem_nil, or_false] at hconstant
        rcases hconstant with rfl | rfl | rfl | rfl | rfl | rfl
        · rfl
        · rfl
        · rfl
        · rfl
        · rfl
        · rfl
      exact hall _ (List.mem_of_find?_eq_some hfind)

theorem skipBlanks_append {text : Str} (more : Str) (h : skipBlanks text ≠ []) :
    skipBlanks (text ++ more) = skipBlanks text ++ more := by
  have hne : ¬ (text.dropWhile isBlank).isEmpty = true := by
    rw [List.isEmpty_iff]
    exact h
  rw [skipBlanks, List.dropWhile_append, if_neg hne]
  rfl

/-- A number before `,` or a closing bracket ended. -/
theorem ends_of_skipBlanks {rest more : Str} {c : Char} (h : skipBlanks rest = c :: more)
    (hc : EndsNumber c) : Ends rest := by
  cases rest with
  | nil => cases h
  | cons d rest =>
      refine ⟨List.cons_ne_nil _ _, stops_cons _ ?_⟩
      by_cases hblank : isBlank d = true
      · simp only [isBlank, Bool.or_eq_true, decide_eq_true_eq] at hblank
        unfold EndsNumber
        rcases hblank with ((rfl | rfl) | rfl) | rfl
        · decide
        · decide
        · decide
        · decide
      · rw [skipBlanks_cons _ (by simpa using hblank)] at h
        cases h
        exact hc

/-- What the scanners have read with fuel `n` they read again when the text goes on. -/
structure ReadsOn (F : Type) [FiniteFloat F] (n : Nat) : Prop where
  value : ∀ (text rest more : Str) (v : Json Str F) (m : Nat), scanValue n text = some (v, rest) →
    v.closed = true ∨ Ends rest → n ≤ m → scanValue m (text ++ more) = some (v, rest ++ more)
  items : ∀ (text rest more : Str) (items : List (Json Str F)) (m : Nat),
    scanItems n text = some (items, rest) → n ≤ m →
    scanItems m (text ++ more) = some (items, rest ++ more)
  fields : ∀ (text rest more : Str) (fields : List (Str × Json Str F)) (m : Nat),
    scanFields n text = some (fields, rest) → n ≤ m →
    scanFields m (text ++ more) = some (fields, rest ++ more)

theorem ReadsOn.items_succ {n : Nat} (h : ReadsOn F n) (text rest more : Str)
    (items : List (Json Str F)) (m : Nat) (hscan : scanItems (n + 1) text = some (items, rest))
    (hm : n + 1 ≤ m) : scanItems m (text ++ more) = some (items, rest ++ more) := by
  obtain ⟨m, rfl⟩ : ∃ k, m = k + 1 := ⟨m - 1, by omega⟩
  obtain ⟨item, after, hvalue, hrest⟩ := scanItems_eq_some.mp hscan
  rcases hrest with ⟨hclose, rfl⟩ | ⟨next, items', hcomma, hitems, rfl⟩
  · have hends := ends_of_skipBlanks hclose (by unfold EndsNumber; decide)
    have hskip := skipBlanks_append more (by rw [hclose]; exact List.cons_ne_nil _ _)
    rw [hclose] at hskip
    have hon := h.value text after more item m hvalue (Or.inr hends) (by omega)
    exact scanItems_eq_some.mpr ⟨item, _, hon, Or.inl ⟨hskip, rfl⟩⟩
  · have hends := ends_of_skipBlanks hcomma (by unfold EndsNumber; decide)
    have hskip := skipBlanks_append more (by rw [hcomma]; exact List.cons_ne_nil _ _)
    rw [hcomma] at hskip
    have hnext : skipBlanks next ≠ [] := by
      intro hnil
      rw [hnil, scanItems_nil] at hitems
      cases hitems
    have hon := h.value text after more item m hvalue (Or.inr hends) (by omega)
    have hmore := h.items _ _ more _ m hitems (by omega)
    rw [← skipBlanks_append more hnext] at hmore
    exact scanItems_eq_some.mpr ⟨item, _, hon, Or.inr ⟨_, items', hskip, hmore, rfl⟩⟩

theorem ReadsOn.fields_succ {n : Nat} (h : ReadsOn F n) (text rest more : Str)
    (fields : List (Str × Json Str F)) (m : Nat)
    (hscan : scanFields (n + 1) text = some (fields, rest)) (hm : n + 1 ≤ m) :
    scanFields m (text ++ more) = some (fields, rest ++ more) := by
  obtain ⟨m, rfl⟩ : ∃ k, m = k + 1 := ⟨m - 1, by omega⟩
  obtain ⟨chars, key, afterKey, afterColon, value, after, rfl, hkey, hcolon, hvalue, hrest⟩ :=
    scanFields_eq_some.mp hscan
  have hkey' := scanString_append more hkey
  have hcolon' := skipBlanks_append more (by rw [hcolon]; exact List.cons_ne_nil _ _)
  rw [hcolon] at hcolon'
  have hblank : skipBlanks afterColon ≠ [] := by
    intro hnil
    rw [hnil, scanValue_nil] at hvalue
    cases hvalue
  rcases hrest with ⟨hclose, rfl⟩ | ⟨next, fields', hcomma, hfields, rfl⟩
  · have hends := ends_of_skipBlanks hclose (by unfold EndsNumber; decide)
    have hskip := skipBlanks_append more (by rw [hclose]; exact List.cons_ne_nil _ _)
    rw [hclose] at hskip
    have hon := h.value _ after more value m hvalue (Or.inr hends) (by omega)
    rw [← skipBlanks_append more hblank] at hon
    exact scanFields_eq_some.mpr
      ⟨_, key, _, _, value, _, rfl, hkey', hcolon', hon, Or.inl ⟨hskip, rfl⟩⟩
  · have hends := ends_of_skipBlanks hcomma (by unfold EndsNumber; decide)
    have hskip := skipBlanks_append more (by rw [hcomma]; exact List.cons_ne_nil _ _)
    rw [hcomma] at hskip
    have hnext : skipBlanks next ≠ [] := by
      intro hnil
      rw [hnil, scanFields_nil] at hfields
      cases hfields
    have hon := h.value _ after more value m hvalue (Or.inr hends) (by omega)
    rw [← skipBlanks_append more hblank] at hon
    have hmore := h.fields _ _ more _ m hfields (by omega)
    rw [← skipBlanks_append more hnext] at hmore
    exact scanFields_eq_some.mpr
      ⟨_, key, _, _, value, _, rfl, hkey', hcolon', hon, Or.inr ⟨_, fields', hskip, hmore, rfl⟩⟩

/-- A bracket that does not come first does not come first either when the text goes on. -/
theorem skipBlanks_append_ne {text more : Str} {c : Char} (hne : skipBlanks text ≠ [])
    (h : ∀ tail, skipBlanks text ≠ c :: tail) : ∀ tail, skipBlanks (text ++ more) ≠ c :: tail := by
  intro tail hclose
  obtain ⟨d, rest, hrest⟩ := List.exists_cons_of_ne_nil hne
  rw [skipBlanks_append more hne, hrest, List.cons_append] at hclose
  injection hclose with hd
  exact h rest (by rw [hrest, hd])

theorem ReadsOn.value_succ {n : Nat} (h : ReadsOn F n) (text rest more : Str) (v : Json Str F)
    (m : Nat) (hscan : scanValue (n + 1) text = some (v, rest))
    (hends : v.closed = true ∨ Ends rest) (hm : n + 1 ≤ m) :
    scanValue m (text ++ more) = some (v, rest ++ more) := by
  obtain ⟨m, rfl⟩ : ∃ k, m = k + 1 := ⟨m - 1, by omega⟩
  cases text with
  | nil => cases hscan
  | cons c text =>
      by_cases hquote : c = quote
      · subst hquote
        rw [scanValue_string] at hscan
        obtain ⟨⟨s, rest'⟩, hstring, hresult⟩ := Option.map_eq_some_iff.mp hscan
        cases hresult
        rw [List.cons_append, scanValue_string, scanString_append more hstring]
        rfl
      by_cases hbrace : c = '{'
      · subst hbrace
        rw [List.cons_append]
        by_cases hclose : ∃ tail, skipBlanks text = '}' :: tail
        · obtain ⟨tail, hclose⟩ := hclose
          rw [scanValue_object, hclose] at hscan
          cases hscan
          rw [scanValue_object, skipBlanks_append more (by rw [hclose]; exact List.cons_ne_nil _ _),
            hclose]
          rfl
        · push Not at hclose
          rw [scanValue_fields n hclose] at hscan
          obtain ⟨⟨fields, rest'⟩, hfields, hresult⟩ := Option.map_eq_some_iff.mp hscan
          cases hresult
          have hne : skipBlanks text ≠ [] := by
            intro hnil
            rw [hnil, scanFields_nil] at hfields
            cases hfields
          rw [scanValue_fields m (skipBlanks_append_ne hne hclose), skipBlanks_append more hne,
            h.fields _ _ more _ m hfields (by omega)]
          rfl
      by_cases hbracket : c = '['
      · subst hbracket
        rw [List.cons_append]
        by_cases hclose : ∃ tail, skipBlanks text = ']' :: tail
        · obtain ⟨tail, hclose⟩ := hclose
          rw [scanValue_array, hclose] at hscan
          cases hscan
          rw [scanValue_array, skipBlanks_append more (by rw [hclose]; exact List.cons_ne_nil _ _),
            hclose]
          rfl
        · push Not at hclose
          rw [scanValue_items n hclose] at hscan
          obtain ⟨⟨items, rest'⟩, hitems, hresult⟩ := Option.map_eq_some_iff.mp hscan
          cases hresult
          have hne : skipBlanks text ≠ [] := by
            intro hnil
            rw [hnil, scanItems_nil] at hitems
            cases hitems
          rw [scanValue_items m (skipBlanks_append_ne hne hclose), skipBlanks_append more hne,
            h.items _ _ more _ m hitems (by omega)]
          rfl
      rw [scanValue_atom n _ hquote hbrace hbracket] at hscan
      rw [List.cons_append, scanValue_atom m _ hquote hbrace hbracket]
      rcases hends with hclosed | hends
      · rw [scanAtom_open hscan] at hclosed
        cases hclosed
      · exact scanAtom_append more hscan hends

theorem readsOn (n : Nat) : ReadsOn F n := by
  induction n with
  | zero =>
      refine ⟨?_, ?_, ?_⟩
      · intro text rest more v m hscan
        cases hscan
      · intro text rest more items m hscan
        cases hscan
      · intro text rest more fields m hscan
        cases hscan
  | succ n ih => exact ⟨ih.value_succ, ih.items_succ, ih.fields_succ⟩

theorem closed_of_scanValue {n : Nat} {text rest : Str} {v : Json Str F}
    (h : scanValue (n + 1) ('{' :: text) = some (v, rest)) : v.closed = true := by
  rw [scanValue_object] at h
  split at h
  · cases h
    rfl
  · obtain ⟨_, _, hresult⟩ := Option.map_eq_some_iff.mp h
    cases hresult
    rfl

theorem loads_prefixWith (encoder : Encoder) {fields : List (Str × Json Str F)} {text more : Str}
    (hv : (Json.obj fields).Representable)
    (htext : text ++ more = dumpsWith encoder (.obj fields)) (hmore : more ≠ []) :
    (loads text : Option (Json Str F)) = none := by
  cases text with
  | nil => rfl
  | cons c text =>
      obtain ⟨tail, hobject⟩ := dumpsWith_obj_head encoder fields
      obtain rfl : c = '{' := by
        rw [hobject] at htext
        injection htext
      rw [loads, skipBlanks_cons _ (by decide)]
      cases hscan : (scanValue (('{' :: text).length + 1) ('{' :: text) :
          Option (Json Str F × Str)) with
      | none => rfl
      | some result =>
          obtain ⟨v, rest⟩ := result
          -- Read on, the value is the whole object and nothing is left of the text.
          have hlength : (dumpsWith encoder (.obj fields)).length =
              ('{' :: text).length + more.length := by
            rw [← htext, List.length_append]
          have hwhole := (readsOn _).value _ rest more v
            ((dumpsWith encoder (.obj fields)).length + 1) hscan
            (Or.inl (closed_of_scanValue hscan)) (by omega)
          have hback := (readsBack encoder ((dumpsWith encoder (.obj fields)).length + 1)).value
            (.obj fields) [] hv (by omega) stops_nil
          rw [List.append_nil] at hback
          rw [htext, hback] at hwhole
          injection hwhole with hwhole
          injection hwhole with _ hnil
          exact absurd (List.append_eq_nil_iff.mp hnil.symm).2 hmore

/-- No proper beginning of the text of an object is read by `json.loads`. -/
theorem loads_prefix {fields : List (Str × Json Str F)} {text more : Str}
    (hv : (Json.obj fields).Representable) (htext : text ++ more = dumps (.obj fields))
    (hmore : more ≠ []) : (loads text : Option (Json Str F)) = none := by
  rw [← dumpsWith_plain] at htext
  exact loads_prefixWith .plain hv htext hmore

end Text

end Python

import CodeCub.Python.Str
import Mathlib.Data.Rat.Defs
import Mathlib.Data.String.Basic

/-!
# JSON values and their text

`json.dumps(value, ensure_ascii=False)` and `json.loads(text)` on the characters of a
string, and `==` on the values.  The strings of a value are of any type; only the text
asks for characters.  A lone surrogate is no character, so an escape that would give
one is refused.
-/

namespace Python

/-- A `str` without lone surrogates. -/
abbrev Str := List Char

instance lawfulStr : LawfulBEq Str := inferInstance

/-- The characters of a text are tried, not all characters there are. -/
instance decidableForallMem {p : Char → Prop} [DecidablePred p] (text : Str) :
    Decidable (∀ c ∈ text, p c) := List.decidableBAll p text

/-- `NaN`, `Infinity` and `-Infinity`. -/
inductive NonFinite where
  | nan
  | inf
  | negInf
  deriving DecidableEq

/-- What `json.loads` returns, with strings in `S` and finite floats in `F`.  A
`dict` is the list of its items in insertion order. -/
inductive Json (S F : Type) where
  | null
  | bool (value : Bool)
  | int (value : Int)
  | float (value : F)
  | nonFinite (value : NonFinite)
  | str (value : S)
  | arr (items : List (Json S F))
  | obj (fields : List (S × Json S F))

mutual

/-- A value of the JSON grammar as Python holds it: no `NaN` or infinity, and the keys
of an object are distinct. -/
def Json.Representable {S F : Type} : Json S F → Prop
  | .nonFinite _ => False
  | .arr items => Json.RepresentableItems items
  | .obj fields => (fields.map Prod.fst).Nodup ∧ Json.RepresentableFields fields
  | _ => True

def Json.RepresentableItems {S F : Type} : List (Json S F) → Prop
  | [] => True
  | item :: items => item.Representable ∧ Json.RepresentableItems items

def Json.RepresentableFields {S F : Type} : List (S × Json S F) → Prop
  | [] => True
  | (_, value) :: fields => value.Representable ∧ Json.RepresentableFields fields

end

/-- `d[key] = value`. -/
def assign {S V : Type} [DecidableEq S] (key : S) (value : V) : List (S × V) → List (S × V)
  | [] => [(key, value)]
  | entry :: rest => if entry.1 = key then (key, value) :: rest else entry :: assign key value rest

/-- `dict(pairs)`. -/
def dict {S V : Type} [DecidableEq S] (pairs : List (S × V)) : List (S × V) :=
  pairs.foldl (fun d pair => assign pair.1 pair.2 d) []

mutual

/-- The strings in a value: its own, its keys and those of its parts. -/
def Json.texts {S F : Type} : Json S F → List S
  | .str s => [s]
  | .arr items => Json.textsItems items
  | .obj fields => Json.textsFields fields
  | _ => []

def Json.textsItems {S F : Type} : List (Json S F) → List S
  | [] => []
  | item :: items => item.texts ++ Json.textsItems items

def Json.textsFields {S F : Type} : List (S × Json S F) → List S
  | [] => []
  | (key, value) :: fields => key :: (value.texts ++ Json.textsFields fields)

end

/-! ## Characters -/

def quote : Char := Char.ofNat 0x22
def backslash : Char := Char.ofNat 0x5c

def isDigit (c : Char) : Bool := '0' ≤ c && c ≤ '9'

/-- The white space of the JSON grammar. -/
def isBlank (c : Char) : Bool := c = ' ' || c = '\t' || c = '\n' || c = '\r'

def skipBlanks (text : Str) : Str := text.dropWhile isBlank

def hexDigit (n : Nat) : Char := if n < 10 then Char.ofNat (0x30 + n) else Char.ofNat (0x57 + n)

def hexValue (c : Char) : Option Nat :=
  let n := c.toNat
  if 0x30 ≤ n ∧ n ≤ 0x39 then some (n - 0x30)
  else if 0x61 ≤ n ∧ n ≤ 0x66 then some (n - 0x57)
  else if 0x41 ≤ n ∧ n ≤ 0x46 then some (n - 0x37)
  else none

def hex4 (a b c d : Char) : Option Nat := do
  return ((← hexValue a) * 16 + (← hexValue b)) * 256 + (← hexValue c) * 16 + (← hexValue d)

/-- `ESCAPE_DCT`, and the characters that stand for themselves. -/
def escapeChar (c : Char) : Str :=
  if c = quote ∨ c = backslash then [backslash, c]
  else if c.toNat = 0x08 then [backslash, 'b']
  else if c.toNat = 0x09 then [backslash, 't']
  else if c.toNat = 0x0a then [backslash, 'n']
  else if c.toNat = 0x0c then [backslash, 'f']
  else if c.toNat = 0x0d then [backslash, 'r']
  else if c.toNat < 0x20 then
    [backslash, 'u', '0', '0', hexDigit (c.toNat / 16), hexDigit (c.toNat % 16)]
  else [c]

/-- `BACKSLASH`. -/
def unescape (c : Char) : Option Char :=
  if c = quote ∨ c = backslash ∨ c = '/' then some c
  else if c = 'b' then some (Char.ofNat 0x08)
  else if c = 't' then some (Char.ofNat 0x09)
  else if c = 'n' then some (Char.ofNat 0x0a)
  else if c = 'f' then some (Char.ofNat 0x0c)
  else if c = 'r' then some (Char.ofNat 0x0d)
  else none

def dumpsStr (s : Str) : Str := quote :: s.flatMap escapeChar ++ [quote]

/-! ## Floats -/

/-- `[1-9]\d*` or `0`, with a sign. -/
def IsInteger (text : Str) : Prop :=
  ∃ sign digits : Str, text = sign ++ digits ∧ (sign = [] ∨ sign = ['-']) ∧
    (∀ c ∈ digits, isDigit c = true) ∧ (digits = ['0'] ∨ ∃ c rest, digits = c :: rest ∧ c ≠ '0')

/-- `\.\d+`, or nothing. -/
def IsFraction (text : Str) : Prop :=
  text = [] ∨ ∃ digits, text = '.' :: digits ∧ digits ≠ [] ∧ ∀ c ∈ digits, isDigit c = true

/-- `[eE][-+]?\d+`, or nothing. -/
def IsExponent (text : Str) : Prop :=
  text = [] ∨ ∃ e sign digits, text = e :: sign ++ digits ∧ (e = 'e' ∨ e = 'E') ∧
    (sign = [] ∨ sign = ['-'] ∨ sign = ['+']) ∧ digits ≠ [] ∧ ∀ c ∈ digits, isDigit c = true

/-- The finite floats of the interpreter: `float.__repr__`, `float()` of a JSON
literal, which is `none` where it overflows, and the number that a float is. -/
class FiniteFloat (F : Type) where
  repr : F → Str
  ofText : Str → Option F
  value : F → Rat
  repr_literal : ∀ x, ∃ i f e : Str, repr x = i ++ f ++ e ∧ IsInteger i ∧ IsFraction f ∧
    IsExponent e ∧ f ++ e ≠ []
  ofText_repr : ∀ x, ofText (repr x) = some x

/-- JSON without floats. -/
instance : FiniteFloat Empty where
  repr x := x.elim
  ofText _ := none
  value x := x.elim
  repr_literal x := x.elim
  ofText_repr x := x.elim

/-! ## Equality -/

/-- A value without parts up to `==`: booleans, integers and floats are numbers. -/
inductive Scalar (S : Type) where
  | null
  | number (value : Rat)
  | nonFinite (value : NonFinite)
  | str (value : S)
  deriving DecidableEq

section Equality

variable {S F : Type} [DecidableEq S] [FiniteFloat F]

def Json.scalar? : Json S F → Option (Scalar S)
  | .null => some .null
  | .bool b => some (.number (if b then 1 else 0))
  | .int n => some (.number n)
  | .float x => some (.number (FiniteFloat.value x))
  | .nonFinite x => some (.nonFinite x)
  | .str s => some (.str s)
  | .arr _ => none
  | .obj _ => none

/-- `==` on scalars; `NaN` is not equal to itself. -/
def scalarsEqv : Option (Scalar S) → Option (Scalar S) → Bool
  | some x, some y => x = y && x ≠ .nonFinite .nan
  | _, _ => false

mutual

/-- `a == b`. -/
def Json.eqv : Json S F → Json S F → Bool
  | .arr items, .arr items' => Json.eqvItems items items'
  | .obj fields, .obj fields' => fields.length = fields'.length && Json.eqvFields fields fields'
  | a, b => scalarsEqv a.scalar? b.scalar?

def Json.eqvItems : List (Json S F) → List (Json S F) → Bool
  | [], [] => true
  | item :: items, item' :: items' => item.eqv item' && Json.eqvItems items items'
  | _, _ => false

/-- Every item of the first `dict` is in the second. -/
def Json.eqvFields : List (S × Json S F) → List (S × Json S F) → Bool
  | [], _ => true
  | (key, value) :: fields, fields' =>
      match fields'.lookup key with
      | some value' => value.eqv value' && Json.eqvFields fields fields'
      | none => false

end

end Equality

/-! ## `json.dumps` -/

/-- `int.__repr__`. -/
def intRepr (n : Int) : Str :=
  if n < 0 then '-' :: Nat.toDigits 10 n.natAbs else Nat.toDigits 10 n.natAbs

def NonFinite.text : NonFinite → Str
  | .nan => ['N', 'a', 'N']
  | .inf => ['I', 'n', 'f', 'i', 'n', 'i', 't', 'y']
  | .negInf => ['-', 'I', 'n', 'f', 'i', 'n', 'i', 't', 'y']

section Text

variable {F : Type} [FiniteFloat F]

mutual

/-- `json.dumps(value, ensure_ascii=False)`. -/
def dumps : Json Str F → Str
  | .null => ['n', 'u', 'l', 'l']
  | .bool true => ['t', 'r', 'u', 'e']
  | .bool false => ['f', 'a', 'l', 's', 'e']
  | .int n => intRepr n
  | .float x => FiniteFloat.repr x
  | .nonFinite x => x.text
  | .str s => dumpsStr s
  | .arr [] => ['[', ']']
  | .arr (item :: items) => '[' :: (dumps item ++ dumpsItems items)
  | .obj [] => ['{', '}']
  | .obj ((key, value) :: fields) =>
      '{' :: (dumpsStr key ++ ':' :: ' ' :: (dumps value ++ dumpsFields fields))

/-- The items of an array after the first one. -/
def dumpsItems : List (Json Str F) → Str
  | [] => [']']
  | item :: items => ',' :: ' ' :: (dumps item ++ dumpsItems items)

def dumpsFields : List (Str × Json Str F) → Str
  | [] => ['}']
  | (key, value) :: fields =>
      ',' :: ' ' :: (dumpsStr key ++ ':' :: ' ' :: (dumps value ++ dumpsFields fields))

end

/-! ## `json.loads` -/

def consChar (c : Char) (scanned : Option (Str × Str)) : Option (Str × Str) :=
  scanned.map fun result => (c :: result.1, result.2)

/-- `scanstring`, after the opening quote. -/
def scanString : Str → Option (Str × Str)
  | [] => none
  | c :: rest =>
      if c = quote then some ([], rest)
      else if c = backslash then
        match rest with
        | 'u' :: p :: q :: r :: s :: more =>
            match hex4 p q r s with
            | none => none
            | some n =>
                if 0xd800 ≤ n ∧ n ≤ 0xdbff then
                  match more with
                  | b :: 'u' :: p' :: q' :: r' :: s' :: more' =>
                      match hex4 p' q' r' s' with
                      | none => none
                      | some m =>
                          if b = backslash ∧ 0xdc00 ≤ m ∧ m ≤ 0xdfff then
                            consChar (Char.ofNat (0x10000 + (n - 0xd800) * 0x400 + (m - 0xdc00)))
                              (scanString more')
                          else none
                  | _ => none
                else if 0xdc00 ≤ n ∧ n ≤ 0xdfff then none
                else consChar (Char.ofNat n) (scanString more)
        | e :: more =>
            match unescape e with
            | none => none
            | some d => consChar d (scanString more)
        | [] => none
      else if c.toNat < 0x20 then none
      else consChar c (scanString rest)

def scanDigits (text : Str) : Str × Str := (text.takeWhile isDigit, text.dropWhile isDigit)

/-- `0|[1-9]\d*`. -/
def scanNat : Str → Option (Str × Str)
  | [] => none
  | c :: rest =>
      if c = '0' then some (['0'], rest)
      else if isDigit c then some (c :: (scanDigits rest).1, (scanDigits rest).2)
      else none

def scanInteger : Str → Option (Str × Str)
  | [] => none
  | c :: rest =>
      if c = '-' then (scanNat rest).map fun result => ('-' :: result.1, result.2)
      else scanNat (c :: rest)

/-- `(\.\d+)?`. -/
def scanFraction : Str → Str × Str
  | [] => ([], [])
  | c :: rest =>
      if c = '.' ∧ (scanDigits rest).1 ≠ [] then ('.' :: (scanDigits rest).1, (scanDigits rest).2)
      else ([], c :: rest)

def scanSign : Str → Str × Str
  | [] => ([], [])
  | c :: rest => if c = '-' ∨ c = '+' then ([c], rest) else ([], c :: rest)

/-- `([eE][-+]?\d+)?`. -/
def scanExponent : Str → Str × Str
  | [] => ([], [])
  | c :: rest =>
      let sign := (scanSign rest).1
      let digits := scanDigits (scanSign rest).2
      if (c = 'e' ∨ c = 'E') ∧ digits.1 ≠ [] then (c :: sign ++ digits.1, digits.2)
      else ([], c :: rest)

/-- `int()` of `-?(0|[1-9]\d*)`. -/
def intOf : Str → Int
  | '-' :: digits => -(Nat.ofDigitChars 10 digits 0 : Int)
  | digits => Nat.ofDigitChars 10 digits 0

/-- `float()` of a literal. -/
def floatOf (text : Str) : Json Str F :=
  match FiniteFloat.ofText text with
  | some x => .float x
  | none => .nonFinite (if text.head? = some '-' then .negInf else .inf)

/-- `NUMBER_RE` with its conversion. -/
def scanNumber (text : Str) : Option (Json Str F × Str) :=
  (scanInteger text).map fun integer =>
    let fraction := scanFraction integer.2
    let exponent := scanExponent fraction.2
    if fraction.1 = [] ∧ exponent.1 = [] then (.int (intOf integer.1), exponent.2)
    else (floatOf (integer.1 ++ fraction.1 ++ exponent.1), exponent.2)

/-- The constants. -/
def constants : List (Str × Json Str F) :=
  [(['n', 'u', 'l', 'l'], .null), (['t', 'r', 'u', 'e'], .bool true),
    (['f', 'a', 'l', 's', 'e'], .bool false), (NonFinite.nan.text, .nonFinite .nan),
    (NonFinite.inf.text, .nonFinite .inf), (NonFinite.negInf.text, .nonFinite .negInf)]

def scanConstant (text : Str) : Option (Json Str F × Str) :=
  (constants.find? fun constant => constant.1.isPrefixOf text).map fun constant =>
    (constant.2, text.drop constant.1.length)

def scanAtom (text : Str) : Option (Json Str F × Str) :=
  (scanNumber text).orElse fun _ => scanConstant text

mutual

/-- `scan_once`; the fuel bounds the depth and the length. -/
def scanValue : Nat → Str → Option (Json Str F × Str)
  | 0, _ => none
  | _ + 1, [] => none
  | fuel + 1, c :: rest =>
      if c = quote then (scanString rest).map fun result => (.str result.1, result.2)
      else if c = '{' then
        match skipBlanks rest with
        | '}' :: more => some (.obj [], more)
        | text => (scanFields fuel text).map fun result => (.obj (dict result.1), result.2)
      else if c = '[' then
        match skipBlanks rest with
        | ']' :: more => some (.arr [], more)
        | text => (scanItems fuel text).map fun result => (.arr result.1, result.2)
      else scanAtom (c :: rest)

/-- `JSONArray`, from its first value on. -/
def scanItems : Nat → Str → Option (List (Json Str F) × Str)
  | 0, _ => none
  | fuel + 1, text =>
      match scanValue fuel text with
      | none => none
      | some (item, rest) =>
          match skipBlanks rest with
          | ']' :: more => some ([item], more)
          | ',' :: more =>
              (scanItems fuel (skipBlanks more)).map fun result => (item :: result.1, result.2)
          | _ => none

/-- `JSONObject`, from its first key on. -/
def scanFields : Nat → Str → Option (List (Str × Json Str F) × Str)
  | 0, _ => none
  | _ + 1, [] => none
  | fuel + 1, c :: rest =>
      if c = quote then
        match scanString rest with
        | none => none
        | some (key, rest) =>
            match skipBlanks rest with
            | ':' :: more =>
                match scanValue fuel (skipBlanks more) with
                | none => none
                | some (value, rest) =>
                    match skipBlanks rest with
                    | '}' :: more => some ([(key, value)], more)
                    | ',' :: more =>
                        (scanFields fuel (skipBlanks more)).map fun result =>
                          ((key, value) :: result.1, result.2)
                    | _ => none
            | _ => none
      else none

end

/-- `json.loads(text)`, `none` where it raises. -/
def loads (text : Str) : Option (Json Str F) :=
  match scanValue (text.length + 1) (skipBlanks text) with
  | none => none
  | some (value, rest) => if skipBlanks rest = [] then some value else none

end Text

end Python

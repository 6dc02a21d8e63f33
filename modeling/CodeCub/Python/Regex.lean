import CodeCub.Python.Json

/-!
# Patterns of the `re` module

A pattern is run from a place in a text, and gives the places where a match of it can end.
Which of them a backtracking matcher takes is left open: `search` and `match` only ask whether
there is one.
-/

namespace Python

/-- A place in a text: the character before it, and the rest. -/
structure Place where
  before : Option Char
  rest : Str
  deriving DecidableEq

inductive Regex where
  | empty
  /-- One character. -/
  | char (accepts : Char → Bool)
  /-- `\b`, where `isWord` is `\w`. -/
  | edge (isWord : Char → Bool)
  /-- `$`. -/
  | final
  | seq (first next : Regex)
  | alt (one other : Regex)
  /-- `*`. -/
  | many (body : Regex)

namespace Regex

/-- Up to `n` matches in a row, each of which takes something. -/
def repeated (step : Place → List Place) : Nat → Place → List Place
  | 0, place => [place]
  | n + 1, place =>
      ((step place).filter fun next => next.rest.length < place.rest.length).flatMap
        (repeated step n) ++ [place]

/-- The places where a match from the place can end. -/
def ends : Regex → Place → List Place
  | empty, place => [place]
  | char accepts, place =>
      match place.rest with
      | [] => []
      | c :: rest => if accepts c then [⟨some c, rest⟩] else []
  | edge isWord, place =>
      if place.before.any isWord = place.rest.head?.any isWord then [] else [place]
  | final, place => if place.rest = [] ∨ place.rest = ['\n'] then [place] else []
  | seq first next, place => (ends first place).flatMap (ends next)
  | alt one other, place => ends one place ++ ends other place
  | many body, place => repeated (ends body) place.rest.length place

def places (before : Option Char) : Str → List Place
  | [] => [⟨before, []⟩]
  | c :: rest => ⟨before, c :: rest⟩ :: places (some c) rest

/-- `bool(re.match(pattern, text))`. -/
def accepts (pattern : Regex) (text : Str) : Bool := ends pattern ⟨none, text⟩ ≠ []

/-- `bool(re.search(pattern, text))`. -/
def search (pattern : Regex) (text : Str) : Bool :=
  (places none text).any fun place => ends pattern place ≠ []

/-! ## Writing patterns -/

def concat (parts : List Regex) : Regex := parts.foldr seq empty

/-- `a|b|...`, of at least one. -/
def oneOf (first : Regex) (others : List Regex) : Regex := others.foldl alt first

def opt (body : Regex) : Regex := alt body empty

def plus (body : Regex) : Regex := seq body (many body)

/-- `{n}`. -/
def times (body : Regex) (n : Nat) : Regex := concat (List.replicate n body)

/-- `{n,}`. -/
def atLeast (body : Regex) (n : Nat) : Regex := seq (times body n) (many body)

/-- `.`. -/
def any : Regex := char fun c => c ≠ '\n'

/-- `\s`. -/
def space : Regex := char isSpace

def literal (text : String) : Regex := concat (text.toList.map fun c => char fun x => x = c)

/-- The lower case letter that an ASCII letter of a pattern meets under `(?i)`: four letters
beyond ASCII count as an ASCII one. -/
def folded (c : Char) : Char :=
  if c = '\u0130' ∨ c = '\u0131' then 'i'
  else if c = '\u017f' then 's'
  else if c = '\u212a' then 'k'
  else if c.isUpper then c.toLower
  else c

/-- A text under `(?i)`. -/
def word (text : String) : Regex :=
  concat (text.toList.map fun c => char fun x => folded x = folded c)

/-- A class under `(?i)`, by its lower case letters. -/
def classOf (accepts : Char → Bool) : Regex := char fun x => accepts (folded x)

end Regex

end Python

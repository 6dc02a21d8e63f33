import CodeCub.Python.Str

/-!
# POSIX path normalisation

`posixpath.normpath` on the characters of a string.  It is purely textual: it asks
the file system nothing.
-/

namespace Python

/-- The component loop of `normpath`; `done` holds the kept components, last one
first. -/
def normComps (absolute : Bool) : List String → List String → List String
  | done, [] => done.reverse
  | done, comp :: comps =>
      if comp = "" ∨ comp = "." then normComps absolute done comps
      else if comp ≠ ".." ∨ (!absolute ∧ done = []) ∨ done.head? = some ".." then
        normComps absolute (comp :: done) comps
      else normComps absolute done.tail comps

/-- POSIX keeps exactly two leading slashes apart from one or more than two. -/
def initialSlashes (path : List Char) : Nat :=
  if ['/', '/'].isPrefixOf path && not (['/', '/', '/'].isPrefixOf path) then 2
  else if ['/'].isPrefixOf path then 1
  else 0

def normpath (path : String) : String :=
  let slashes := initialSlashes path.toList
  let comps := (path.toList.splitOn '/').map String.ofList
  let result := String.ofList (List.replicate slashes '/') ++
    String.intercalate "/" (normComps (slashes != 0) [] comps)
  if result = "" then "." else result

example : normpath "" = "." := by decide

example : normpath "src//a/./../b.py" = "src/b.py" := by decide

end Python

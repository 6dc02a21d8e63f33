import CodeCub.Evolver.Nodes
import CodeCub.Evolver.PathGuard
import CodeCub.Python.OrderedDict

/-!
# The tree of the nodes

`pico/evolver/tree`: a child node is a commit, a metadata file and sometimes a branch.
`create_child_node` checks the paths the patch declares, applies it to the parent's tree,
compares the declared paths with those git reports, and then writes the file and the
branch.  What git does to trees, and whether a command fails for reasons of its own, are
parameters.
-/

namespace CodeCub
namespace Evolver

open Python

/-- A file of a commit. -/
structure Entry where
  mode : Str
  blob : Str
  deriving DecidableEq

abbrev Tree := OrderedDict Str Entry

structure Commit where
  tree : Tree
  parent : Option Str
  message : Str
  authorName : Str
  authorEmail : Str
  second : Nat

abbrev Commits := OrderedDict Str Commit

/-- The paths at which two trees differ. -/
def changedPaths (t u : Tree) : List Str :=
  (t.keys ++ u.keys).filter fun path => t.get path ≠ u.get path

/-- What git does to trees and commits: `apply --cached`, the rename detection of `diff`,
each pair the old and the new path of a file, and the id that `commit-tree` prints. -/
structure Git where
  apply : Tree → Str → Option Tree
  renames : Tree → Tree → List (Str × Str)
  commitTree : Commits → Commit → Str
  renames_pair : ∀ {t u : Tree} {old new : Str}, (old, new) ∈ renames t u →
    t.get old ≠ none ∧ u.get old = none ∧ t.get new = none ∧ u.get new ≠ none
  /-- An id is new, or it is the id of the same commit. -/
  commitTree_named : ∀ (commits : Commits) (commit : Commit),
    commits.get (commitTree commits commit) = none ∨
      commits.get (commitTree commits commit) = some commit

/-- `git diff --name-only`: a renamed file under its new path. -/
def Git.diffNames (git : Git) (t u : Tree) : List Str :=
  (changedPaths t u).filter fun path => path ∉ (git.renames t u).map Prod.fst

/-- The steps that can fail for reasons of their own. -/
inductive TreeStep where
  | lsTree
  | readTree
  | apply
  | writeTree
  | commitTree
  | diff
  | save
  | branch

/-- The machine during one call. -/
structure Host where
  fails : TreeStep → Option Str := fun _ => none
  second : Nat
  utcNow : Str
  coreVersion : Str := "unknown".toList

inductive StoreError where
  | nodeNotFound (nodeId : Str)
  | nodeUnreadable (nodeId : Str)
  | immutablePath (offenders : List Str)
  | unknownCommit (sha : Str)
  | git (stderr : Str)
  | pathsDiffer (expected actual : List Str)
  | invalidNode
  | disk (reason : Str)

/-- The repository and the directory of the nodes; a file that does not load is `none`. -/
structure TreeStore where
  commits : Commits := ∅
  nodes : OrderedDict Str (Option HarnessNode) := ∅
  branches : OrderedDict Str Str := ∅

structure CreateChild where
  parentNodeId : Str
  patch : AppliedPatch
  iterIndex : Int
  commitMessage : Str
  gitBranch : Option Str := none
  createBranchRef : Bool := false
  authorName : Str := "evolver-bot".toList
  authorEmail : Str := "evolver@pico.local".toList
  guardImmutable : Bool := true

def Host.run (host : Host) (step : TreeStep) : Except StoreError Unit :=
  match host.fails step with
  | none => .ok ()
  | some stderr => .error (.git stderr)

def TreeStore.hasNode (s : TreeStore) (nodeId : Str) : Bool := (s.nodes.get nodeId).isSome

def TreeStore.loadNode (s : TreeStore) (nodeId : Str) : Except StoreError HarnessNode :=
  match s.nodes.get nodeId with
  | none => .error (.nodeNotFound nodeId)
  | some none => .error (.nodeUnreadable nodeId)
  | some (some node) => .ok node

/-- The tree of a commit. -/
def TreeStore.treeOf (s : TreeStore) (sha : Str) : Tree := ((s.commits.get sha).map Commit.tree).getD ∅

/-! ## The guard -/

/-- `"a/b/c"` begins with `"a"`, `"a/b"` and itself. -/
def pathPrefixes (path : Str) : List Str :=
  let parts := path.splitOn '/'
  (List.range parts.length).map fun index => ['/'].intercalate (parts.take (index + 1))

def treePathHasSymlink (tree : Tree) (path : Str) : Bool :=
  (pathPrefixes path).any fun pre => (tree.get pre).map Entry.mode = some "120000".toList

/-- `_assert_no_tree_symlink`. -/
def assertNoTreeSymlink (host : Host) (s : TreeStore) (treeish path : Str) : Except UnsafePath Unit :=
  match host.fails .lsTree, s.commits.get treeish with
  | none, some commit => if treePathHasSymlink commit.tree path then .error .symlink else .ok ()
  | _, _ => .error .uninspected

def targetFiles (patch : AppliedPatch) : List Str := patch.components.map PatchComponent.targetFile

/-- Step 0.5. -/
def guardPatch (folding : CaseFolding) (host : Host) (call : CreateChild) (s : TreeStore)
    (parent : HarnessNode) : Except StoreError Unit :=
  if call.guardImmutable then
    (assertPatchAllowed folding (assertNoTreeSymlink host s parent.gitCommitSha)
      (targetFiles call.patch)).mapError .immutablePath
  else .ok ()

/-! ## The commit -/

/-- `apply_patch_as_commit` up to `commit-tree`. -/
def patchedTree (git : Git) (host : Host) (s : TreeStore) (parentSha diff : Str) :
    Except StoreError Tree :=
  match s.commits.get parentSha with
  | none => .error (.unknownCommit parentSha)
  | some commit => do
      host.run .readTree
      host.run .apply
      let tree ← match git.apply commit.tree diff with
        | some tree => .ok tree
        | none => .error (.git "patch does not apply".toList)
      host.run .writeTree
      host.run .commitTree
      return tree

/-- The commit that `commit-tree` makes. -/
def childCommit (host : Host) (call : CreateChild) (parent : HarnessNode) (tree : Tree) : Commit where
  tree := tree
  parent := some parent.gitCommitSha
  message := call.commitMessage
  authorName := call.authorName
  authorEmail := call.authorEmail
  second := host.second

/-- Steps 0 to 1, before the commit is stored. -/
def prepare (git : Git) (folding : CaseFolding) (host : Host) (call : CreateChild) (s : TreeStore) :
    Except StoreError (HarnessNode × Commit) := do
  let parent ← s.loadNode call.parentNodeId
  guardPatch folding host call s parent
  let tree ← patchedTree git host s parent.gitCommitSha call.patch.diff
  return (parent, childCommit host call parent tree)

def TreeStore.addCommit (s : TreeStore) (git : Git) (commit : Commit) : TreeStore :=
  { s with commits := s.commits.set (git.commitTree s.commits commit) commit }

/-- `changed_paths_between`, read in text mode. -/
def changedPathsBetween (git : Git) (host : Host) (s : TreeStore) (parentSha childSha : Str) :
    Except StoreError (List Str) := do
  host.run .diff
  return (git.diffNames (s.treeOf parentSha) (s.treeOf childSha)).map universalNewlines

/-- The reported paths are the declared ones. -/
def comparePaths (git : Git) (host : Host) (call : CreateChild) (s : TreeStore)
    (parentSha childSha : Str) : Except StoreError Unit := do
  let actual ← changedPathsBetween git host s parentSha childSha
  let expected := targetFiles call.patch
  if actual ⊆ expected ∧ expected ⊆ actual then .ok () else .error (.pathsDiffer expected actual)

/-! ## The node -/

/-- `f"v{iter_index}-{child_sha[:n]}"`. -/
def nodeId (iterIndex : Int) (sha : Str) (n : Nat) : Str := 'v' :: (intRepr iterIndex ++ '-' :: sha.take n)

/-- A longer id where the short one is taken. -/
def chooseId (s : TreeStore) (iterIndex : Int) (sha : Str) : Str :=
  if s.hasNode (nodeId iterIndex sha 8) then nodeId iterIndex sha 12 else nodeId iterIndex sha 8

def childNode (host : Host) (call : CreateChild) (s : TreeStore) (parent : HarnessNode) (sha : Str) :
    HarnessNode where
  nodeId := chooseId s call.iterIndex sha
  parentId := some call.parentNodeId
  gitCommitSha := sha
  gitBranch :=
    match call.gitBranch with
    | some branch => if branch = [] then parent.gitBranch else branch
    | none => parent.gitBranch
  createdAt := host.utcNow
  createdAtIter := call.iterIndex
  coreVersion := host.coreVersion
  patch := some call.patch

/-- `HarnessNode.__post_init__`. -/
def HarnessNode.Valid (node : HarnessNode) : Prop :=
  0 ≤ node.createdAtIter ∧ node.nodeId ≠ [] ∧ node.gitCommitSha ≠ [] ∧ node.coreVersion ≠ [] ∧
    (node.parentId = none → node.patch = none)

instance (node : HarnessNode) : Decidable node.Valid :=
  inferInstanceAs (Decidable (_ ∧ _ ∧ _ ∧ _ ∧ (_ → _)))

def refName (nodeId : Str) : Str := "evolver/".toList ++ nodeId

/-- Step 4. -/
def branchNode (host : Host) (call : CreateChild) (node : HarnessNode) (s : TreeStore) :
    TreeStore × Except StoreError HarnessNode :=
  if call.createBranchRef && (s.branches.get (refName node.nodeId)).isNone then
    match host.fails .branch with
    | some stderr => (s, .error (.git stderr))
    | none => ({ s with branches := s.branches.set (refName node.nodeId) node.gitCommitSha }, .ok node)
  else (s, .ok node)

/-- Steps 2 to 4. -/
def saveChild (host : Host) (call : CreateChild) (parent : HarnessNode) (sha : Str) (s : TreeStore) :
    TreeStore × Except StoreError HarnessNode :=
  let node := childNode host call s parent sha
  if ¬ node.Valid then (s, .error .invalidNode)
  else
    match host.fails .save with
    | some reason => (s, .error (.disk reason))
    | none => branchNode host call node { s with nodes := s.nodes.set node.nodeId (some node) }

/-- `create_child_node`. -/
def createChildNode (git : Git) (folding : CaseFolding) (host : Host) (call : CreateChild)
    (s : TreeStore) : TreeStore × Except StoreError HarnessNode :=
  match prepare git folding host call s with
  | .error e => (s, .error e)
  | .ok (parent, commit) =>
      let sha := git.commitTree s.commits commit
      let s := s.addCommit git commit
      match comparePaths git host call s parent.gitCommitSha sha with
      | .error e => (s, .error e)
      | .ok _ => saveChild host call parent sha s

end Evolver
end CodeCub

import CodeCub.Evolver.Tree
import Mathlib.Algebra.GroupWithZero.Nat
import Mathlib.Algebra.Order.BigOperators.Group.List

/-!
# What the creation of a child leaves behind

Whether `create_child_node` adds exactly one node or nothing, and whether its guard keeps
the child's tree away from the kernel.  Nothing is undone after the node is saved, and the
longer id is taken without a look; the guard sees what `git diff` reports, and that is not
the old path of a renamed file.
-/

namespace CodeCub
namespace Evolver

open Python

variable {git : Git} {folding : CaseFolding} {host : Host} {call : CreateChild} {s s' : TreeStore}
  {parent node : HarnessNode} {commit : Commit}

/-! ## The steps -/

theorem mem_changedPaths {t u : Tree} {path : Str} :
    path ∈ changedPaths t u ↔ t.get path ≠ u.get path := by
  rw [changedPaths, List.mem_filter, decide_eq_true_eq, and_iff_right_iff_imp]
  intro hne
  rw [List.mem_append]
  by_contra hnot
  push Not at hnot
  have hnone : ∀ v : Tree, path ∉ v.keys → v.get path = none := by
    intro v hv
    rw [OrderedDict.get, Option.map_eq_none_iff, List.find?_eq_none]
    intro entry hentry hsame
    exact hv (List.mem_map.mpr ⟨entry, hentry, by simpa using hsame⟩)
  exact hne ((hnone t hnot.1).trans (hnone u hnot.2).symm)

theorem Host.run_ok {step : TreeStep} (h : host.run step = .ok ()) : host.fails step = none := by
  rw [Host.run] at h
  split at h
  · assumption
  · cases h

theorem loadNode_ok {nodeId : Str} (h : s.loadNode nodeId = .ok node) :
    s.nodes.get nodeId = some (some node) := by
  rw [TreeStore.loadNode] at h
  split at h
  · cases h
  · cases h
  · next hget =>
      cases h
      exact hget

theorem patchedTree_ok {parentSha diff : Str} {tree : Tree}
    (h : patchedTree git host s parentSha diff = .ok tree) :
    ∃ before, s.commits.get parentSha = some before ∧ git.apply before.tree diff = some tree := by
  rw [patchedTree] at h
  split at h
  · cases h
  next before hget =>
  refine ⟨before, hget, ?_⟩
  cases hread : host.run .readTree with
  | error e => rw [hread] at h; cases h
  | ok _ =>
  cases hrun : host.run .apply with
  | error e => rw [hread, hrun] at h; cases h
  | ok _ =>
  cases happly : git.apply before.tree diff with
  | none => rw [hread, hrun, happly] at h; cases h
  | some after =>
  cases hwrite : host.run .writeTree with
  | error e => rw [hread, hrun, happly, hwrite] at h; cases h
  | ok _ =>
  cases hcommit : host.run .commitTree with
  | error e => rw [hread, hrun, happly, hwrite, hcommit] at h; cases h
  | ok _ =>
  rw [hread, hrun, happly, hwrite, hcommit] at h
  cases h
  rfl

/-- What the steps before the commit have found. -/
structure Prepared (git : Git) (folding : CaseFolding) (host : Host) (call : CreateChild)
    (s : TreeStore) (parent : HarnessNode) (commit : Commit) : Prop where
  loaded : s.nodes.get call.parentNodeId = some (some parent)
  guarded : guardPatch folding host call s parent = .ok ()
  patched : ∃ before tree, s.commits.get parent.gitCommitSha = some before ∧
    git.apply before.tree call.patch.diff = some tree ∧
    commit = childCommit host call parent tree

theorem prepared_of_prepare (h : prepare git folding host call s = .ok (parent, commit)) :
    Prepared git folding host call s parent commit := by
  rw [prepare] at h
  cases hload : s.loadNode call.parentNodeId with
  | error e => rw [hload] at h; cases h
  | ok loaded =>
  cases hguard : guardPatch folding host call s loaded with
  | error e => rw [hload] at h; simp only [bind, Except.bind, hguard] at h; cases h
  | ok _ =>
  cases hpatch : patchedTree git host s loaded.gitCommitSha call.patch.diff with
  | error e => rw [hload] at h; simp only [bind, Except.bind, hguard, hpatch] at h; cases h
  | ok tree =>
  rw [hload] at h
  simp only [bind, Except.bind, hguard, hpatch] at h
  cases h
  obtain ⟨before, hbefore, happly⟩ := patchedTree_ok hpatch
  exact ⟨loadNode_ok hload, hguard, before, tree, hbefore, happly, rfl⟩

theorem comparePaths_ok {parentSha childSha : Str}
    (h : comparePaths git host call s parentSha childSha = .ok ()) :
    ∀ path ∈ git.diffNames (s.treeOf parentSha) (s.treeOf childSha),
      universalNewlines path ∈ targetFiles call.patch := by
  rw [comparePaths, changedPathsBetween] at h
  cases hdiff : host.run .diff with
  | error e => rw [hdiff] at h; cases h
  | ok _ =>
  rw [hdiff] at h
  simp only [bind, Except.bind, pure, Except.pure] at h
  split at h
  · next hsame => exact fun path hpath => hsame.1 (List.mem_map_of_mem hpath)
  · cases h

/-- The branch is asked for, is not there and cannot be made. -/
def BranchFails (host : Host) (call : CreateChild) (s : TreeStore) (nodeId : Str) : Prop :=
  call.createBranchRef = true ∧ s.branches.get (refName nodeId) = none ∧ host.fails .branch ≠ none

theorem branchNode_fails (h : BranchFails host call s node.nodeId) :
    ∃ e, branchNode host call node s = (s, .error e) := by
  obtain ⟨hasked, hnone, hfails⟩ := h
  obtain ⟨stderr, hstderr⟩ := Option.ne_none_iff_exists'.mp hfails
  exact ⟨.git stderr, by rw [branchNode, hasked, hnone, hstderr]; rfl⟩

theorem branchNode_ok (h : ¬ BranchFails host call s node.nodeId) :
    ∃ branches, branchNode host call node s = ({ s with branches := branches }, .ok node) := by
  rw [branchNode]
  split
  · next hasked =>
      rw [Bool.and_eq_true, Option.isNone_iff_eq_none] at hasked
      split
      · next stderr hstderr =>
          exact absurd ⟨hasked.1, hasked.2, by rw [hstderr]; exact Option.some_ne_none _⟩ h
      · exact ⟨_, rfl⟩
  · exact ⟨s.branches, rfl⟩

/-- The call gets as far as saving the node. -/
structure Reaches (git : Git) (folding : CaseFolding) (host : Host) (call : CreateChild)
    (s : TreeStore) (parent : HarnessNode) (commit : Commit) : Prop where
  prepared : prepare git folding host call s = .ok (parent, commit)
  compared : comparePaths git host call (s.addCommit git commit) parent.gitCommitSha
    (git.commitTree s.commits commit) = .ok ()
  valid : (childNode host call s parent (git.commitTree s.commits commit)).Valid
  saved : host.fails .save = none

/-- The store with the commit and the file of the node. -/
def savedStore (git : Git) (s : TreeStore) (commit : Commit) (node : HarnessNode) : TreeStore :=
  { s.addCommit git commit with nodes := s.nodes.set node.nodeId (some node) }

theorem createChildNode_reached (h : Reaches git folding host call s parent commit) :
    createChildNode git folding host call s =
      branchNode host call (childNode host call s parent (git.commitTree s.commits commit))
        (savedStore git s commit (childNode host call s parent (git.commitTree s.commits commit))) := by
  have hvalid : (childNode host call (s.addCommit git commit) parent
      (git.commitTree s.commits commit)).Valid := h.valid
  rw [createChildNode, h.prepared]
  simp only [h.compared]
  rw [saveChild]
  simp only [not_true_eq_false, hvalid, if_false, h.saved]
  rfl

theorem createChildNode_stopped (h : ∀ parent commit, ¬ Reaches git folding host call s parent commit) :
    ∃ commits e, createChildNode git folding host call s = ({ s with commits := commits }, .error e) := by
  rw [createChildNode]
  cases hprepare : prepare git folding host call s with
  | error e => exact ⟨s.commits, e, rfl⟩
  | ok result =>
  obtain ⟨parent, commit⟩ := result
  simp only
  cases hcompare : comparePaths git host call (s.addCommit git commit) parent.gitCommitSha
    (git.commitTree s.commits commit) with
  | error e => exact ⟨_, e, rfl⟩
  | ok _ =>
  simp only
  rw [saveChild]
  by_cases hvalid : (childNode host call (s.addCommit git commit) parent
    (git.commitTree s.commits commit)).Valid
  swap
  · simp only [hvalid, not_false_eq_true, if_true]
    exact ⟨_, _, rfl⟩
  simp only [hvalid, not_true_eq_false, if_false]
  cases hsave : host.fails .save with
  | some reason => exact ⟨_, _, rfl⟩
  | none => exact absurd ⟨hprepare, hcompare, hvalid, hsave⟩ (h parent commit)

/-! ## Commits -/

/-- The commit can be found, and no other one is lost. -/
theorem get_addCommit (git : Git) (s : TreeStore) (commit : Commit) :
    (s.addCommit git commit).commits.get (git.commitTree s.commits commit) = some commit :=
  OrderedDict.get_set_self ..

theorem get_addCommit_old {sha : Str} {old : Commit} (h : s.commits.get sha = some old) :
    (s.addCommit git commit).commits.get sha = some old := by
  show (s.commits.set _ commit).get sha = some old
  rw [OrderedDict.get_set]
  split
  · next hsame =>
      rcases git.commitTree_named s.commits commit with hnew | hsome
      · rw [← hsame, h] at hnew
        cases hnew
      · rw [← hsame, h] at hsome
        exact hsome.symm
  · exact h

/-! ## All or nothing -/

/-- One new file, of a node of the new commit. -/
structure AddsChild (git : Git) (host : Host) (call : CreateChild) (s s' : TreeStore)
    (node : HarnessNode) : Prop where
  fresh : s.nodes.get node.nodeId = none
  saved : s'.nodes.get node.nodeId = some (some node)
  others : ∀ nodeId, nodeId ≠ node.nodeId → s'.nodes.get nodeId = s.nodes.get nodeId
  parentId : node.parentId = some call.parentNodeId
  commit : ∃ parent before tree, s.nodes.get call.parentNodeId = some (some parent) ∧
    s.commits.get parent.gitCommitSha = some before ∧
    git.apply before.tree call.patch.diff = some tree ∧
    s'.commits.get node.gitCommitSha = some (childCommit host call parent tree)

structure Unchanged (s s' : TreeStore) : Prop where
  nodes : ∀ nodeId, s'.nodes.get nodeId = s.nodes.get nodeId
  branches : ∀ name, s'.branches.get name = s.branches.get name

/-- A call that returns adds one node, a call that raises changes nothing. -/
def AllOrNothing (git : Git) (folding : CaseFolding) (host : Host) (call : CreateChild)
    (s : TreeStore) : Prop :=
  match createChildNode git folding host call s with
  | (s', .ok node) => AddsChild git host call s s' node
  | (s', .error _) => Unchanged s s'

/-- If the node gets saved, the branch does not fail after it, or the file held that very
node, and one of its two ids is free. -/
def SavesCleanly (git : Git) (folding : CaseFolding) (host : Host) (call : CreateChild)
    (s : TreeStore) : Prop :=
  ∀ parent commit, Reaches git folding host call s parent commit →
    let sha := git.commitTree s.commits commit
    let id := chooseId s call.iterIndex sha
    (BranchFails host call s id → s.nodes.get id = some (some (childNode host call s parent sha))) ∧
      (¬ BranchFails host call s id →
        s.hasNode (nodeId call.iterIndex sha 8) = false ∨
          s.hasNode (nodeId call.iterIndex sha 12) = false)

theorem hasNode_eq_false {id : Str} : s.hasNode id = false ↔ s.nodes.get id = none := by
  rw [TreeStore.hasNode, Option.isSome_eq_false_iff, Option.isNone_iff_eq_none]

/-- The id is free where one of the two is. -/
theorem chooseId_free {iterIndex : Int} {sha : Str} :
    s.nodes.get (chooseId s iterIndex sha) = none ↔
      s.hasNode (nodeId iterIndex sha 8) = false ∨ s.hasNode (nodeId iterIndex sha 12) = false := by
  rw [chooseId]
  split
  · next htaken => rw [← hasNode_eq_false, htaken, Bool.true_eq_false, false_or]
  · next hfree =>
      rw [Bool.not_eq_true] at hfree
      rw [← hasNode_eq_false, hfree, eq_self_iff_true, true_or]

theorem addsChild_iff (h : Reaches git folding host call s parent commit)
    (branches : OrderedDict Str Str) :
    let child := childNode host call s parent (git.commitTree s.commits commit)
    AddsChild git host call s { savedStore git s commit child with branches := branches } child ↔
      s.nodes.get child.nodeId = none := by
  intro child
  obtain ⟨before, tree, hbefore, happly, hcommit⟩ := (prepared_of_prepare h.prepared).patched
  constructor
  · exact AddsChild.fresh
  · intro hfresh
    refine ⟨hfresh, OrderedDict.get_set_self .., ?_, rfl, ?_⟩
    · exact fun id hid => OrderedDict.get_set_ne _ _ hid
    · refine ⟨parent, before, tree, (prepared_of_prepare h.prepared).loaded, hbefore, happly, ?_⟩
      rw [← hcommit]
      exact get_addCommit git s commit

theorem unchanged_iff (git : Git) (s : TreeStore) (commit : Commit) (node : HarnessNode) :
    Unchanged s (savedStore git s commit node) ↔ s.nodes.get node.nodeId = some (some node) := by
  constructor
  · intro h
    rw [← h.nodes]
    exact OrderedDict.get_set_self ..
  · intro h
    refine ⟨fun id => ?_, fun _ => rfl⟩
    show (s.nodes.set node.nodeId (some node)).get id = s.nodes.get id
    rw [OrderedDict.get_set]
    split
    · next hsame => rw [hsame, h]
    · rfl

/-- Creating a child adds one node or changes nothing exactly when nothing fails after the
node is saved and its id was free. -/
theorem all_or_nothing_iff (git : Git) (folding : CaseFolding) (host : Host) (call : CreateChild)
    (s : TreeStore) :
    AllOrNothing git folding host call s ↔ SavesCleanly git folding host call s := by
  by_cases hreach : ∃ parent commit, Reaches git folding host call s parent commit
  · obtain ⟨parent, commit, hreach⟩ := hreach
    have hunique : ∀ parent' commit', Reaches git folding host call s parent' commit' →
        parent' = parent ∧ commit' = commit := by
      intro parent' commit' h
      have hboth := h.prepared.symm.trans hreach.prepared
      cases hboth
      exact ⟨rfl, rfl⟩
    rw [AllOrNothing, createChildNode_reached hreach]
    have hiff : SavesCleanly git folding host call s ↔
        (BranchFails host call s (chooseId s call.iterIndex (git.commitTree s.commits commit)) →
          s.nodes.get (chooseId s call.iterIndex (git.commitTree s.commits commit)) =
            some (some (childNode host call s parent (git.commitTree s.commits commit)))) ∧
        (¬ BranchFails host call s (chooseId s call.iterIndex (git.commitTree s.commits commit)) →
          s.nodes.get (chooseId s call.iterIndex (git.commitTree s.commits commit)) = none) := by
      rw [chooseId_free]
      constructor
      · exact fun h => h parent commit hreach
      · intro h parent' commit' hreach'
        obtain ⟨rfl, rfl⟩ := hunique parent' commit' hreach'
        exact h
    rw [hiff]
    by_cases hbranch : BranchFails host call s
        (chooseId s call.iterIndex (git.commitTree s.commits commit))
    · let node := childNode host call s parent (git.commitTree s.commits commit)
      obtain ⟨e, he⟩ : ∃ e, branchNode host call node (savedStore git s commit node) =
          (savedStore git s commit node, .error e) := branchNode_fails hbranch
      rw [he]
      show Unchanged s _ ↔ _
      rw [unchanged_iff]
      exact ⟨fun h => ⟨fun _ => h, fun hnot => absurd hbranch hnot⟩, fun h => h.1 hbranch⟩
    · let node := childNode host call s parent (git.commitTree s.commits commit)
      obtain ⟨branches, hok⟩ : ∃ branches, branchNode host call node (savedStore git s commit node) =
          ({ savedStore git s commit node with branches := branches }, .ok node) :=
        branchNode_ok hbranch
      rw [hok]
      refine (addsChild_iff hreach branches).trans ?_
      exact ⟨fun h => ⟨fun hfails => absurd hfails hbranch, fun _ => h⟩, fun h => h.2 hbranch⟩
  · push Not at hreach
    obtain ⟨commits, e, hcreate⟩ := createChildNode_stopped hreach
    rw [AllOrNothing, hcreate]
    constructor
    · exact fun _ parent commit h => absurd h (hreach parent commit)
    · exact fun _ => ⟨fun _ => rfl, fun _ => rfl⟩

/-! ## The kernel -/

/-- A path of the kernel differs. -/
def TouchesKernel (folding : CaseFolding) (t u : Tree) : Prop :=
  ∃ path, t.get path ≠ u.get path ∧ isImmutable folding path = true

/-- No file of the kernel is renamed, as git detects it. -/
def RenamesNoKernel (git : Git) (folding : CaseFolding) (t : Tree) (diff : Str) : Prop :=
  ∀ u, git.apply t diff = some u → ∀ rename ∈ git.renames t u, isImmutable folding rename.1 = false

theorem treeOf_of_get {sha : Str} (h : s.commits.get sha = some commit) :
    s.treeOf sha = commit.tree := by
  rw [TreeStore.treeOf, h]
  rfl

theorem reaches_of_created (h : createChildNode git folding host call s = (s', .ok node)) :
    ∃ parent commit, Reaches git folding host call s parent commit ∧
      node = childNode host call s parent (git.commitTree s.commits commit) ∧
      s'.commits = (s.addCommit git commit).commits := by
  by_cases hreach : ∃ parent commit, Reaches git folding host call s parent commit
  · obtain ⟨parent, commit, hreach⟩ := hreach
    refine ⟨parent, commit, hreach, ?_⟩
    rw [createChildNode_reached hreach] at h
    by_cases hbranch : BranchFails host call
        (savedStore git s commit (childNode host call s parent (git.commitTree s.commits commit)))
        (childNode host call s parent (git.commitTree s.commits commit)).nodeId
    · obtain ⟨e, he⟩ := branchNode_fails hbranch
      rw [he] at h
      cases h
    · obtain ⟨branches, hok⟩ := branchNode_ok hbranch
      rw [hok] at h
      cases h
      exact ⟨rfl, rfl⟩
  · push Not at hreach
    obtain ⟨commits, e, hcreate⟩ := createChildNode_stopped hreach
    rw [hcreate] at h
    cases h

/-- What the guard allows is no path of the kernel. -/
theorem mutable_of_guard (hguard : call.guardImmutable = true)
    (h : guardPatch folding host call s parent = .ok ()) :
    ∀ path ∈ targetFiles call.patch, isImmutable folding path = false := by
  rw [guardPatch, if_pos hguard] at h
  cases hallowed : assertPatchAllowed folding (assertNoTreeSymlink host s parent.gitCommitSha)
      (targetFiles call.patch) with
  | error offenders =>
      rw [hallowed] at h
      cases h
  | ok _ => exact mutable_of_allowed hallowed

/-- The trees of the parent and of its child. -/
theorem trees_of_created (hcreate : createChildNode git folding host call s = (s', .ok node))
    (hparent : s.nodes.get call.parentNodeId = some (some parent)) :
    ∃ tree, git.apply (s.treeOf parent.gitCommitSha) call.patch.diff = some tree ∧
      s'.treeOf parent.gitCommitSha = s.treeOf parent.gitCommitSha ∧
      s'.treeOf node.gitCommitSha = tree ∧
      guardPatch folding host call s parent = .ok () ∧
      ∀ path ∈ git.diffNames (s.treeOf parent.gitCommitSha) tree,
        universalNewlines path ∈ targetFiles call.patch := by
  obtain ⟨parent', commit, hreach, rfl, hcommits⟩ := reaches_of_created hcreate
  have hprepared := prepared_of_prepare hreach.prepared
  obtain rfl : parent' = parent := by
    have hboth := hprepared.loaded.symm.trans hparent
    cases hboth
    rfl
  obtain ⟨before, tree, hbefore, happly, rfl⟩ := hprepared.patched
  have hcompared := comparePaths_ok hreach.compared
  rw [treeOf_of_get (get_addCommit_old hbefore), treeOf_of_get (get_addCommit git s _)] at hcompared
  have htree : s'.treeOf (git.commitTree s.commits (childCommit host call parent' tree)) = tree := by
    rw [TreeStore.treeOf, hcommits]
    exact treeOf_of_get (get_addCommit git s _)
  rw [treeOf_of_get hbefore]
  refine ⟨tree, happly, ?_, htree, hprepared.guarded, hcompared⟩
  rw [TreeStore.treeOf, hcommits]
  exact treeOf_of_get (get_addCommit_old hbefore)

/-- A guarded child keeps away from the kernel exactly when its patch renames none of it. -/
theorem kernel_untouched_iff (hcreate : createChildNode git folding host call s = (s', .ok node))
    (hguard : call.guardImmutable = true)
    (hparent : s.nodes.get call.parentNodeId = some (some parent)) :
    ¬ TouchesKernel folding (s'.treeOf parent.gitCommitSha) (s'.treeOf node.gitCommitSha) ↔
      RenamesNoKernel git folding (s.treeOf parent.gitCommitSha) call.patch.diff := by
  obtain ⟨tree, happly, hold, hnew, hguarded, hcompared⟩ := trees_of_created hcreate hparent
  have hreported : ∀ path ∈ git.diffNames (s.treeOf parent.gitCommitSha) tree,
      isImmutable folding path = false := by
    intro path hpath
    have hdeclared := mutable_of_guard hguard hguarded _ (hcompared path hpath)
    by_contra himmutable
    rw [Bool.not_eq_false] at himmutable
    rw [isImmutable_universalNewlines himmutable] at hdeclared
    cases hdeclared
  rw [hold, hnew, RenamesNoKernel]
  constructor
  · intro hclean u hu rename hrename
    rw [happly] at hu
    cases hu
    obtain ⟨hthere, hgone, _⟩ := git.renames_pair hrename
    by_contra himmutable
    rw [Bool.not_eq_false] at himmutable
    refine hclean ⟨rename.1, ?_, himmutable⟩
    rw [hgone]
    exact hthere
  · rintro hrenames ⟨path, hdiffers, himmutable⟩
    by_cases hmoved : path ∈ (git.renames (s.treeOf parent.gitCommitSha) tree).map Prod.fst
    · obtain ⟨rename, hrename, rfl⟩ := List.mem_map.mp hmoved
      rw [hrenames tree happly rename hrename] at himmutable
      cases himmutable
    · have hpath : path ∈ git.diffNames (s.treeOf parent.gitCommitSha) tree :=
        List.mem_filter.mpr ⟨mem_changedPaths.mpr hdiffers, by simpa using hmoved⟩
      rw [hreported path hpath] at himmutable
      cases himmutable

/-! ## A repository in which one file moves -/

/-- A file that is gone and one with the same contents that is new. -/
def exactRenames (t u : Tree) : List (Str × Str) :=
  (t.entries.filter fun entry => u.get entry.1 = none).filterMap fun entry =>
    ((u.entries.filter fun other => t.get other.1 = none).find? fun other =>
      other.2 = entry.2).map fun other => (entry.1, other.1)

theorem exactRenames_pair {t u : Tree} {old new : Str} (h : (old, new) ∈ exactRenames t u) :
    t.get old ≠ none ∧ u.get old = none ∧ t.get new = none ∧ u.get new ≠ none := by
  obtain ⟨⟨_, file⟩, hfile, hfound⟩ := List.mem_filterMap.mp h
  obtain ⟨⟨_, other⟩, hother, hpair⟩ := Option.map_eq_some_iff.mp hfound
  cases hpair
  rw [List.mem_filter, decide_eq_true_eq] at hfile
  have hmem := List.mem_of_find?_eq_some hother
  rw [List.mem_filter, decide_eq_true_eq] at hmem
  refine ⟨?_, hfile.2, hmem.2, ?_⟩
  · rw [OrderedDict.get_of_mem t hfile.1]
    exact Option.some_ne_none _
  · rw [OrderedDict.get_of_mem u hmem.1]
    exact Option.some_ne_none _

/-- An id longer than all others. -/
def longId (commits : Commits) : Str :=
  List.replicate ((commits.keys.map List.length).sum + 8) 'c'

theorem longId_new (commits : Commits) : commits.get (longId commits) = none := by
  cases hget : commits.get (longId commits) with
  | none => rfl
  | some commit =>
      obtain ⟨entry, hfind, _⟩ := Option.map_eq_some_iff.mp hget
      have hkey : entry.1 = longId commits := by simpa using List.find?_some hfind
      have hmem : (longId commits).length ∈ commits.keys.map List.length :=
        List.mem_map_of_mem (hkey ▸ List.mem_map_of_mem (List.mem_of_find?_eq_some hfind))
      have hle := List.le_sum_of_mem hmem
      rw [longId, List.length_replicate] at hle
      omega

def moveDiff (old new : Str) : Str :=
  "diff --git a/".toList ++ old ++ " b/".toList ++ new ++
    "\nsimilarity index 100%\nrename from ".toList ++ old ++ "\nrename to ".toList ++ new ++ ['\n']

/-- A git that knows the empty patch and the one which moves `old` to `new`. -/
def movingGit (old new : Str) : Git where
  apply tree diff :=
    if diff = [] then some tree
    else if diff = moveDiff old new then
      (tree.get old).map fun entry => (tree.pop old).set new entry
    else none
  renames := exactRenames
  commitTree commits _ := longId commits
  renames_pair := exactRenames_pair
  commitTree_named commits _ := Or.inl (longId_new commits)

def lowerAscii : CaseFolding where
  fold c := if c.toNat < 0x80 then [c.toLower] else [c]
  fold_ascii _ h := if_pos h

/-- A root node whose commit holds the one file `path`. -/
def oneFile (path : Str) : TreeStore where
  commits := (∅ : Commits).set "a0".toList
    { tree := (∅ : Tree).set path { mode := "100644".toList, blob := "b1".toList }, parent := none,
      message := [], authorName := [], authorEmail := [], second := 0 }
  nodes := (∅ : OrderedDict Str (Option HarnessNode)).set "C0".toList
    (some { nodeId := "C0".toList, parentId := none, gitCommitSha := "a0".toList, gitBranch := [],
            createdAt := [], createdAtIter := 0, coreVersion := "1.0".toList, patch := none })

/-- The patch declares the new path. -/
def moveCall (old new : Str) : CreateChild where
  parentNodeId := "C0".toList
  patch := { patchWhy := .toolClarity, components := [{ targetFile := new, diff := moveDiff old new }] }
  iterIndex := 1
  commitMessage := "move".toList

def busyHost : Host where
  second := 1
  utcNow := "2026-01-01T00:00:00+00:00".toList

/-- The child of a call that returns. -/
def created (git : Git) (host : Host) (call : CreateChild) (s : TreeStore) : Option HarnessNode :=
  (createChildNode git lowerAscii host call s).2.toOption

theorem createChildNode_of_created (h : created git host call s = some node) :
    createChildNode git lowerAscii host call s =
      ((createChildNode git lowerAscii host call s).1, .ok node) := by
  rw [created] at h
  cases hresult : (createChildNode git lowerAscii host call s).2 with
  | error e =>
      rw [hresult] at h
      cases h
  | ok other =>
      rw [hresult] at h
      cases h
      rw [← hresult]

def notes : Str := "pico/agent/notes.py".toList

def memo : Str := "pico/agent/memo.py".toList

def bus : Str := "pico/spine/bus.py".toList

def movedId : Str := "cccccccccc".toList

def movedNode (old new : Str) : HarnessNode where
  nodeId := "v1-cccccccc".toList
  parentId := some "C0".toList
  gitCommitSha := movedId
  gitBranch := []
  createdAt := "2026-01-01T00:00:00+00:00".toList
  createdAtIter := 1
  coreVersion := "unknown".toList
  patch := some (moveCall old new).patch

def rootNode : HarnessNode where
  nodeId := "C0".toList
  parentId := none
  gitCommitSha := "a0".toList
  gitBranch := []
  createdAt := []
  createdAtIter := 0
  coreVersion := "1.0".toList
  patch := none

theorem moving_notes_untouched :
    ¬ TouchesKernel lowerAscii
        ((createChildNode (movingGit notes memo) lowerAscii busyHost (moveCall notes memo)
          (oneFile notes)).1.treeOf rootNode.gitCommitSha)
        ((createChildNode (movingGit notes memo) lowerAscii busyHost (moveCall notes memo)
          (oneFile notes)).1.treeOf (movedNode notes memo).gitCommitSha) ↔
      RenamesNoKernel (movingGit notes memo) lowerAscii
        ((oneFile notes).treeOf rootNode.gitCommitSha) (moveCall notes memo).patch.diff :=
  kernel_untouched_iff (createChildNode_of_created (by decide +kernel)) rfl (by decide +kernel)

/-- A file of the kernel is moved out of it: the guard sees the new path only. -/
theorem moved_kernel_escapes :
    ¬ ∀ (git : Git) (folding : CaseFolding) (host : Host) (call : CreateChild) (s s' : TreeStore)
        (parent node : HarnessNode),
      createChildNode git folding host call s = (s', .ok node) → call.guardImmutable = true →
      s.nodes.get call.parentNodeId = some (some parent) →
      ¬ TouchesKernel folding (s'.treeOf parent.gitCommitSha) (s'.treeOf node.gitCommitSha) := by
  intro h
  have hcreate : createChildNode (movingGit bus memo) lowerAscii busyHost (moveCall bus memo)
      (oneFile bus) = (_, .ok (movedNode bus memo)) :=
    createChildNode_of_created (by decide +kernel)
  have hparent : (oneFile bus).nodes.get (moveCall bus memo).parentNodeId = some (some rootNode) := by
    decide +kernel
  obtain ⟨tree, happly, hold, hnew, _⟩ := trees_of_created hcreate hparent
  refine h _ _ _ _ _ _ _ _ hcreate rfl hparent ⟨bus, ?_, by decide +kernel⟩
  rw [hold, hnew]
  have hgone : ((movingGit bus memo).apply ((oneFile bus).treeOf rootNode.gitCommitSha)
      (moveCall bus memo).patch.diff).map (fun u => u.get bus) = some none := by decide +kernel
  rw [happly, Option.map_some, Option.some.injEq] at hgone
  rw [hgone]
  decide +kernel

/-! ## A branch that cannot be made -/

/-- A branch `evolver` is in the way of every branch `evolver/...`. -/
def blockedHost : Host where
  fails
    | .branch => some "cannot lock ref 'refs/heads/evolver/v1-cccccccc'".toList
    | _ => none
  second := 1
  utcNow := "2026-01-01T00:00:00+00:00".toList

/-- A control arm, without any component, that asks for a branch. -/
def controlCall : CreateChild where
  parentNodeId := "C0".toList
  patch := { patchWhy := .infraNeutralityControl, components := [] }
  iterIndex := 1
  commitMessage := "control".toList
  createBranchRef := true

def blockedStore : TreeStore :=
  { oneFile notes with branches := (∅ : OrderedDict Str Str).set "evolver".toList "a0".toList }

/-- The call raises, and the node stays. -/
theorem failedBranch_leaves_node :
    ¬ ∀ (git : Git) (folding : CaseFolding) (host : Host) (call : CreateChild) (s : TreeStore),
      AllOrNothing git folding host call s := by
  intro h
  have hall := h (movingGit notes memo) lowerAscii blockedHost controlCall blockedStore
  have hraised : created (movingGit notes memo) blockedHost controlCall blockedStore = none := by
    decide +kernel
  have hstays : ((createChildNode (movingGit notes memo) lowerAscii blockedHost controlCall
      blockedStore).1.nodes.get "v1-cccccccc".toList).isSome = true := by decide +kernel
  rw [AllOrNothing] at hall
  split at hall
  · next s' node hresult =>
      rw [created, hresult] at hraised
      cases hraised
  · next s' e hresult =>
      rw [hresult, hall.nodes] at hstays
      exact absurd hstays (by decide +kernel)

end Evolver
end CodeCub

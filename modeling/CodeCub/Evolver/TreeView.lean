import CodeCub.Evolver.Archive
import CodeCub.Evolver.Tree
import CodeCub.Machine.Forest

/-!
# The view of the tree

`pico/evolver/tree/store.py`: `build_tree` sorts the nodes into a root, orphans and children
by looking whether a parent is there, and the two traversals follow the pointers without
noting where they were.
-/

namespace CodeCub
namespace Evolver

open Python
open Relation (TransGen ReflTransGen)

/-! ## Building it -/

/-- The nodes that load, in the order of their files. -/
def TreeStore.loadAllNodes (s : TreeStore) : List HarnessNode :=
  (s.nodes.entries.mergeSort fun a b =>
    codePointLe (a.1 ++ ".json".toList) (b.1 ++ ".json".toList)).filterMap Prod.snd

structure TreeView where
  nodes : OrderedDict Str HarnessNode
  childrenOf : OrderedDict Str (List Str)
  rootId : Option Str
  orphans : List Str

/-- What the loop over the nodes fills. -/
structure Places where
  childrenOf : OrderedDict Str (List Str)
  rootCandidates : List Str := []
  orphans : List Str := []

def Places.add (nodes : OrderedDict Str HarnessNode) (places : Places) (n : HarnessNode) :
    Places :=
  match n.parentId with
  | none => { places with rootCandidates := places.rootCandidates ++ [n.nodeId] }
  | some p =>
      if (nodes.get p).isNone then { places with orphans := places.orphans ++ [n.nodeId] }
      else
        { places with
          childrenOf := places.childrenOf.set p
            ((places.childrenOf.get p).getD [] ++ [n.nodeId]) }

def nodesById (nodesList : List HarnessNode) : OrderedDict Str HarnessNode :=
  .ofEntries (nodesList.map fun n => (n.nodeId, n))

/-- The nodes in the order of their ids. -/
def inIdOrder (nodesList : List HarnessNode) : List HarnessNode :=
  nodesList.mergeSort fun a b => codePointLe a.nodeId b.nodeId

def placesOf (nodesList : List HarnessNode) : Places :=
  (inIdOrder nodesList).foldl (Places.add (nodesById nodesList))
    { childrenOf := (nodesById nodesList).mapValues fun _ => [] }

def TreeStore.buildTree (s : TreeStore) : TreeView :=
  let nodesList := s.loadAllNodes
  let places := placesOf nodesList
  { nodes := nodesById nodesList
    childrenOf := places.childrenOf.mapValues sortedStrs
    rootId := places.rootCandidates.head?
    orphans := sortedStrs (places.orphans ++ places.rootCandidates.tail) }

/-! ## Walking it -/

namespace TreeView

def children (view : TreeView) (nodeId : Str) : List Str := (view.childrenOf.get nodeId).getD []

def parentOf (view : TreeView) (nodeId : Str) : Option Str :=
  (view.nodes.get nodeId).bind HarnessNode.parentId

/-- `descendants`, in as many rounds of its loop as there is fuel.  The end of the list that
Python pops from is the head of the stack here. -/
def descendants (view : TreeView) (fuel : ℕ) (nodeId : Str) : Option (List Str) :=
  Forest.walk view.children fuel (view.children nodeId).reverse []

/-- `ancestry`.  A parent that is unknown is the last one. -/
def ancestry (view : TreeView) (fuel : ℕ) (nodeId : Str) : Option (List Str) :=
  Forest.climb view.parentOf fuel nodeId

/-! ## What is asked of it -/

def DescendantOf (view : TreeView) (a x : Str) : Prop :=
  ∃ fuel out, view.descendants fuel a = some out ∧ x ∈ out

/-- The root, or a descendant of it. -/
def InTree (view : TreeView) (x : Str) : Prop :=
  ∃ root, view.rootId = some root ∧ (x = root ∨ view.DescendantOf root x)

/-- An orphan, or a descendant of one. -/
def InOrphans (view : TreeView) (x : Str) : Prop :=
  ∃ orphan ∈ view.orphans, x = orphan ∨ view.DescendantOf orphan x

/-- The traversals end and list no id twice, and every node has one place. -/
structure Total (view : TreeView) : Prop where
  descends : ∀ nodeId, ∃ fuel out, view.descendants fuel nodeId = some out ∧ out.Nodup
  ascends : ∀ nodeId, ∃ fuel out, view.ancestry fuel nodeId = some out ∧ out.Nodup
  placed : ∀ nodeId ∈ view.nodes.keys, Xor (view.InTree nodeId) (view.InOrphans nodeId)

end TreeView

/-- A node names another one as its parent. -/
def NamesParent (nodesList : List HarnessNode) (a b : Str) : Prop :=
  ∃ n ∈ nodesList, n.nodeId = a ∧ n.parentId = some b

/-- No node is its own ancestor by the pointers of the files. -/
def NoCycle (nodesList : List HarnessNode) : Prop :=
  ∀ nodeId, ¬ TransGen (NamesParent nodesList) nodeId nodeId

/-! ## The nodes -/

section
variable {nodesList : List HarnessNode} (hids : (nodesList.map HarnessNode.nodeId).Nodup)
include hids

theorem entries_nodesById :
    (nodesById nodesList).entries = nodesList.map fun n => (n.nodeId, n) :=
  OrderedDict.entries_ofEntries (by rw [List.map_map]; exact hids)

theorem get_nodesById_iff {nodeId : Str} {n : HarnessNode} :
    (nodesById nodesList).get nodeId = some n ↔ n ∈ nodesList ∧ n.nodeId = nodeId := by
  constructor
  · intro h
    have hmem := (nodesById nodesList).mem_of_get h
    rw [entries_nodesById hids, List.mem_map] at hmem
    obtain ⟨n', hn', hpair⟩ := hmem
    cases hpair
    exact ⟨hn', rfl⟩
  · rintro ⟨hn, rfl⟩
    refine (nodesById nodesList).get_of_mem ?_
    rw [entries_nodesById hids]
    exact List.mem_map_of_mem hn

theorem known_iff {nodeId : Str} :
    ((nodesById nodesList).get nodeId).isSome ↔ ∃ n ∈ nodesList, n.nodeId = nodeId := by
  rw [Option.isSome_iff_exists]
  exact exists_congr fun n => get_nodesById_iff hids

end

/-! ## The loop over them -/

/-- The parent of the node is not there. -/
def dangling (nodes : OrderedDict Str HarnessNode) (n : HarnessNode) : Bool :=
  n.parentId.any fun p => (nodes.get p).isNone

/-- What the loop has filled after some nodes. -/
structure FilledBy (nodes : OrderedDict Str HarnessNode) (done : List HarnessNode)
    (places : Places) : Prop where
  children : ∀ p, places.childrenOf.get p =
    if (nodes.get p).isSome then
      some ((done.filter fun n => n.parentId = some p).map HarnessNode.nodeId)
    else none
  roots : places.rootCandidates =
    (done.filter fun n => n.parentId = none).map HarnessNode.nodeId
  orphans : places.orphans = (done.filter (dangling nodes)).map HarnessNode.nodeId

theorem FilledBy.add {nodes : OrderedDict Str HarnessNode} {done : List HarnessNode}
    {places : Places} (h : FilledBy nodes done places) (n : HarnessNode) :
    FilledBy nodes (done ++ [n]) (places.add nodes n) := by
  cases hparent : n.parentId with
  | none =>
      have hadd : places.add nodes n =
          { places with rootCandidates := places.rootCandidates ++ [n.nodeId] } := by
        rw [Places.add, hparent]
      rw [hadd]
      refine ⟨fun p => ?_, ?_, ?_⟩
      · rw [h.children p]
        simp [hparent]
      · simp [h.roots, hparent]
      · simp [h.orphans, hparent, dangling]
  | some q =>
      by_cases hnone : (nodes.get q).isNone
      · have hadd : places.add nodes n =
            { places with orphans := places.orphans ++ [n.nodeId] } := by
          simp only [Places.add, hparent, if_pos hnone]
        rw [hadd]
        refine ⟨fun p => ?_, ?_, ?_⟩
        · rw [h.children p]
          by_cases hp : q = p
          · subst hp
            rw [Option.isNone_iff_eq_none] at hnone
            simp [hnone]
          · simp [hparent, hp]
        · simp [h.roots, hparent]
        · simp [h.orphans, hparent, dangling, hnone]
      · have hsome : (nodes.get q).isSome :=
          Option.isSome_iff_ne_none.mpr fun h => hnone (by rw [h]; rfl)
        have hadd : places.add nodes n =
            { places with
              childrenOf := places.childrenOf.set q
                ((places.childrenOf.get q).getD [] ++ [n.nodeId]) } := by
          simp only [Places.add, hparent, if_neg hnone]
        rw [hadd]
        refine ⟨fun p => ?_, ?_, ?_⟩
        · show (places.childrenOf.set q _).get p = _
          by_cases hp : p = q
          · subst hp
            rw [OrderedDict.get_set_self, h.children p, if_pos hsome, if_pos hsome]
            simp [hparent]
          · rw [OrderedDict.get_set_ne _ _ hp, h.children p]
            simp [hparent, Ne.symm hp]
        · simp [h.roots, hparent]
        · simp [h.orphans, hparent, dangling, hnone]

theorem FilledBy.foldl {nodes : OrderedDict Str HarnessNode} {done : List HarnessNode}
    {places : Places} (h : FilledBy nodes done places) (l : List HarnessNode) :
    FilledBy nodes (done ++ l) (l.foldl (Places.add nodes) places) := by
  induction l generalizing done places with
  | nil =>
      rw [List.append_nil]
      exact h
  | cons n l ih =>
      have hstep := ih (h.add n)
      rw [List.append_assoc] at hstep
      exact hstep

theorem filledBy_placesOf (nodesList : List HarnessNode) :
    FilledBy (nodesById nodesList) (inIdOrder nodesList) (placesOf nodesList) := by
  have hstart : FilledBy (nodesById nodesList) []
      { childrenOf := (nodesById nodesList).mapValues fun _ => [] } := by
    refine ⟨fun p => ?_, rfl, rfl⟩
    rw [OrderedDict.get_mapValues]
    cases (nodesById nodesList).get p <;> rfl
  exact hstart.foldl (inIdOrder nodesList)

/-! ## The view -/

section
variable {s : TreeStore} (hids : (s.loadAllNodes.map HarnessNode.nodeId).Nodup)

theorem children_buildTree (s : TreeStore) (p : Str) :
    s.buildTree.children p =
      if ((nodesById s.loadAllNodes).get p).isSome then
        sortedStrs (((inIdOrder s.loadAllNodes).filter fun n => n.parentId = some p).map
          HarnessNode.nodeId)
      else [] := by
  rw [TreeView.children]
  show (((placesOf s.loadAllNodes).childrenOf.mapValues sortedStrs).get p).getD [] = _
  rw [OrderedDict.get_mapValues, (filledBy_placesOf s.loadAllNodes).children p]
  split <;> rfl

include hids

theorem mem_children_buildTree {p c : Str} :
    c ∈ s.buildTree.children p ↔
      (∃ n ∈ s.loadAllNodes, n.nodeId = p) ∧
        ∃ n ∈ s.loadAllNodes, n.nodeId = c ∧ n.parentId = some p := by
  rw [children_buildTree, ← known_iff hids]
  by_cases hknown : ((nodesById s.loadAllNodes).get p).isSome
  · rw [if_pos hknown, sortedStrs, List.mem_mergeSort]
    simp [hknown, inIdOrder, List.mem_mergeSort]
    tauto
  · simp [hknown]

theorem nodup_children_buildTree (p : Str) : (s.buildTree.children p).Nodup := by
  have hsorted : ((inIdOrder s.loadAllNodes).map HarnessNode.nodeId).Nodup :=
    ((List.mergeSort_perm _ _).map _).nodup_iff.mpr hids
  rw [children_buildTree]
  split
  · rw [sortedStrs, (List.mergeSort_perm _ _).nodup_iff]
    exact (List.filter_sublist.map _).nodup hsorted
  · exact List.nodup_nil

theorem parentOf_buildTree_iff {c p : Str} :
    s.buildTree.parentOf c = some p ↔ NamesParent s.loadAllNodes c p := by
  show ((nodesById s.loadAllNodes).get c).bind HarnessNode.parentId = some p ↔ _
  rw [Option.bind_eq_some_iff]
  constructor
  · rintro ⟨n, hn, hparent⟩
    obtain ⟨hmem, hid⟩ := (get_nodesById_iff hids).mp hn
    exact ⟨n, hmem, hid, hparent⟩
  · rintro ⟨n, hmem, hid, hparent⟩
    exact ⟨n, (get_nodesById_iff hids).mpr ⟨hmem, hid⟩, hparent⟩

theorem up_buildTree : Forest.Up s.buildTree.parentOf = NamesParent s.loadAllNodes := by
  funext a b
  exact propext (parentOf_buildTree_iff hids)

theorem acyclic_buildTree_iff :
    Forest.Acyclic s.buildTree.parentOf ↔ NoCycle s.loadAllNodes := by
  rw [Forest.Acyclic, up_buildTree hids, NoCycle]

theorem lists_buildTree : Forest.Lists s.buildTree.parentOf s.buildTree.children
    (s.loadAllNodes.map HarnessNode.nodeId) where
  up p c hc := (parentOf_buildTree_iff hids).mpr ((mem_children_buildTree hids).mp hc).2
  nodup := nodup_children_buildTree hids
  known p c hc := by
    obtain ⟨n, hn, hid, _⟩ := ((mem_children_buildTree hids).mp hc).2
    exact List.mem_map.mpr ⟨n, hn, hid⟩

theorem wellFounded_buildTree (hacyclic : Forest.Acyclic s.buildTree.parentOf) :
    WellFounded fun b a => Forest.Up s.buildTree.parentOf a b := by
  refine Forest.wellFounded_up hacyclic
    ((s.loadAllNodes.map HarnessNode.nodeId).finite_toSet.subset fun a ha => ?_)
  obtain ⟨p, hp⟩ := Option.isSome_iff_exists.mp ha
  obtain ⟨n, hn, hid, _⟩ := (parentOf_buildTree_iff hids).mp hp
  exact List.mem_map.mpr ⟨n, hn, hid⟩

/-! ## Without cycles -/

theorem descendants_spec (hacyclic : Forest.Acyclic s.buildTree.parentOf) {fuel : ℕ}
    {nodeId : Str} {out : List Str} (h : s.buildTree.descendants fuel nodeId = some out) :
    out.Nodup ∧ ∀ x, x ∈ out ↔ TransGen (Forest.Down s.buildTree.children) nodeId x :=
  Forest.walk_some (lists_buildTree hids) hacyclic
    (Forest.underway_start (lists_buildTree hids) nodeId) h

theorem exists_descendants (hacyclic : Forest.Acyclic s.buildTree.parentOf) (nodeId : Str) :
    ∃ out, s.buildTree.descendants s.loadAllNodes.length nodeId = some out := by
  refine Forest.exists_walk (lists_buildTree hids) hacyclic
    (Forest.underway_start (lists_buildTree hids) nodeId) ?_
  rw [List.length_map]
  exact Nat.le_add_right _ _

theorem descendantOf_iff (hacyclic : Forest.Acyclic s.buildTree.parentOf) {a x : Str} :
    s.buildTree.DescendantOf a x ↔ TransGen (Forest.Down s.buildTree.children) a x := by
  constructor
  · rintro ⟨fuel, out, hout, hx⟩
    exact ((descendants_spec hids hacyclic hout).2 x).mp hx
  · intro hdown
    obtain ⟨out, hout⟩ := exists_descendants hids hacyclic a
    exact ⟨_, out, hout, ((descendants_spec hids hacyclic hout).2 x).mpr hdown⟩

omit hids in
theorem mem_ids_filter {nodesList : List HarnessNode} {P : HarnessNode → Bool} {x : Str} :
    x ∈ ((inIdOrder nodesList).filter P).map HarnessNode.nodeId ↔
      ∃ n ∈ nodesList, n.nodeId = x ∧ P n = true := by
  simp only [List.mem_map, List.mem_filter, inIdOrder, List.mem_mergeSort]
  constructor
  · rintro ⟨n, ⟨hn, hP⟩, hid⟩
    exact ⟨n, hn, hid, hP⟩
  · rintro ⟨n, hn, hid, hP⟩
    exact ⟨n, ⟨hn, hP⟩, hid⟩

omit hids in
theorem mem_rootCandidates {nodesList : List HarnessNode} {x : Str} :
    x ∈ (placesOf nodesList).rootCandidates ↔
      ∃ n ∈ nodesList, n.nodeId = x ∧ n.parentId = none := by
  rw [(filledBy_placesOf nodesList).roots, mem_ids_filter]
  simp only [decide_eq_true_eq]

omit hids in
theorem mem_orphans {nodesList : List HarnessNode} {x : Str} :
    x ∈ (placesOf nodesList).orphans ↔
      ∃ n ∈ nodesList, n.nodeId = x ∧ dangling (nodesById nodesList) n = true := by
  rw [(filledBy_placesOf nodesList).orphans, mem_ids_filter]

theorem node_unique {n n' : HarnessNode} (hn : n ∈ s.loadAllNodes) (hn' : n' ∈ s.loadAllNodes)
    (h : n.nodeId = n'.nodeId) : n = n' :=
  List.inj_on_of_nodup_map hids hn hn' h

/-- The ids that head their trees are those of nodes without a parent, and of nodes whose
parent is not there. -/
theorem top_iff {x : Str} (hx : x ∈ s.loadAllNodes.map HarnessNode.nodeId) :
    Forest.Top s.buildTree.children x ↔
      x ∈ (placesOf s.loadAllNodes).rootCandidates ∨ x ∈ (placesOf s.loadAllNodes).orphans := by
  obtain ⟨n, hn, rfl⟩ := List.mem_map.mp hx
  have hchild : ∀ p, n.nodeId ∈ s.buildTree.children p ↔
      ((nodesById s.loadAllNodes).get p).isSome ∧ n.parentId = some p := by
    intro p
    rw [mem_children_buildTree hids, ← known_iff hids]
    refine and_congr_right fun _ => ⟨?_, fun hparent => ⟨n, hn, rfl, hparent⟩⟩
    rintro ⟨n', hn', hid, hparent⟩
    rw [← node_unique hids hn' hn hid]
    exact hparent
  have hroot : n.nodeId ∈ (placesOf s.loadAllNodes).rootCandidates ↔ n.parentId = none := by
    rw [mem_rootCandidates]
    refine ⟨?_, fun hparent => ⟨n, hn, rfl, hparent⟩⟩
    rintro ⟨n', hn', hid, hparent⟩
    rw [← node_unique hids hn' hn hid]
    exact hparent
  have horphan : n.nodeId ∈ (placesOf s.loadAllNodes).orphans ↔
      dangling (nodesById s.loadAllNodes) n = true := by
    rw [mem_orphans]
    refine ⟨?_, fun hdangling => ⟨n, hn, rfl, hdangling⟩⟩
    rintro ⟨n', hn', hid, hdangling⟩
    rw [← node_unique hids hn' hn hid]
    exact hdangling
  rw [hroot, horphan, Forest.Top]
  simp only [hchild]
  cases hparent : n.parentId with
  | none => simp
  | some p =>
      cases hknown : (nodesById s.loadAllNodes).get p with
      | none =>
          have hnobody : ∀ q, ((nodesById s.loadAllNodes).get q).isSome = true → p ≠ q := by
            rintro q hq rfl
            rw [hknown] at hq
            cases hq
          simpa [dangling, hparent, hknown] using hnobody
      | some parent => simp [dangling, hparent, hknown]

theorem root_and_orphans_disjoint {x : Str} (hroot : x ∈ (placesOf s.loadAllNodes).rootCandidates) :
    x ∉ (placesOf s.loadAllNodes).orphans := by
  intro horphan
  obtain ⟨n, hn, hid, hparent⟩ := mem_rootCandidates.mp hroot
  obtain ⟨n', hn', hid', hdangling⟩ := mem_orphans.mp horphan
  rw [node_unique hids hn' hn (hid'.trans hid.symm), dangling, hparent] at hdangling
  cases hdangling

theorem nodup_rootCandidates : (placesOf s.loadAllNodes).rootCandidates.Nodup := by
  rw [(filledBy_placesOf s.loadAllNodes).roots]
  exact (List.filter_sublist.map _).nodup (((List.mergeSort_perm _ _).map _).nodup_iff.mpr hids)

omit hids in
theorem mem_orphans_buildTree (s : TreeStore) {x : Str} :
    x ∈ s.buildTree.orphans ↔
      x ∈ (placesOf s.loadAllNodes).orphans ∨
        x ∈ (placesOf s.loadAllNodes).rootCandidates.tail := by
  show x ∈ sortedStrs _ ↔ _
  rw [sortedStrs, List.mem_mergeSort, List.mem_append]

/-- The heads of the trees are the root, and the orphans. -/
theorem head_cases {x : Str} (hx : x ∈ s.loadAllNodes.map HarnessNode.nodeId) :
    Forest.Top s.buildTree.children x ↔
      s.buildTree.rootId = some x ∨ x ∈ s.buildTree.orphans := by
  rw [top_iff hids hx, mem_orphans_buildTree]
  show _ ↔ (placesOf s.loadAllNodes).rootCandidates.head? = some x ∨ _
  cases (placesOf s.loadAllNodes).rootCandidates with
  | nil => simp
  | cons root rest =>
      simp only [List.mem_cons, List.head?_cons, Option.some.injEq, List.tail_cons]
      rw [eq_comm]
      tauto

theorem root_not_orphan {x : Str} (hroot : s.buildTree.rootId = some x) :
    x ∉ s.buildTree.orphans := by
  rw [mem_orphans_buildTree, not_or]
  have hhead : (placesOf s.loadAllNodes).rootCandidates.head? = some x := hroot
  have hnodup := nodup_rootCandidates hids
  have hdisjoint := root_and_orphans_disjoint hids (List.mem_of_head? hhead)
  refine ⟨hdisjoint, ?_⟩
  cases hroots : (placesOf s.loadAllNodes).rootCandidates with
  | nil =>
      rw [hroots] at hhead
      cases hhead
  | cons root rest =>
      rw [hroots] at hhead hnodup
      obtain rfl := Option.some.inj hhead
      exact (List.nodup_cons.mp hnodup).1

/-- Every node is below one head. -/
theorem placed_of_acyclic (hacyclic : Forest.Acyclic s.buildTree.parentOf) {x : Str}
    (hx : x ∈ s.loadAllNodes.map HarnessNode.nodeId) :
    Xor (s.buildTree.InTree x) (s.buildTree.InOrphans x) := by
  have hlists := lists_buildTree hids
  have hbelow : ∀ a, (x = a ∨ s.buildTree.DescendantOf a x) ↔
      ReflTransGen (Forest.Down s.buildTree.children) a x := by
    intro a
    rw [descendantOf_iff hids hacyclic, Relation.reflTransGen_iff_eq_or_transGen]
  have hknown : ∀ a, ReflTransGen (Forest.Down s.buildTree.children) a x →
      a ∈ s.loadAllNodes.map HarnessNode.nodeId := by
    intro a ha
    rcases ha.cases_head with rfl | ⟨c, hc, _⟩
    · exact hx
    · obtain ⟨n, hn, hid⟩ := ((mem_children_buildTree hids).mp hc).1
      exact List.mem_map.mpr ⟨n, hn, hid⟩
  obtain ⟨t, ht, hdown⟩ := Forest.exists_top hlists.up (wellFounded_buildTree hids hacyclic) x
  have honly : ∀ a, (s.buildTree.rootId = some a ∨ a ∈ s.buildTree.orphans) →
      a ∈ s.loadAllNodes.map HarnessNode.nodeId →
      ReflTransGen (Forest.Down s.buildTree.children) a x → a = t := fun a ha hmem hpath =>
    Forest.top_unique hlists.up ((head_cases hids hmem).mpr ha) ht hpath hdown
  rcases (head_cases hids (hknown t hdown)).mp ht with hroot | horphan
  · refine Or.inl ⟨⟨t, hroot, (hbelow t).mpr hdown⟩, ?_⟩
    rintro ⟨o, ho, hpath⟩
    have hpath := (hbelow o).mp hpath
    rw [honly o (Or.inr ho) (hknown o hpath) hpath] at ho
    exact root_not_orphan hids hroot ho
  · refine Or.inr ⟨⟨t, horphan, (hbelow t).mpr hdown⟩, ?_⟩
    rintro ⟨r, hr, hpath⟩
    have hpath := (hbelow r).mp hpath
    rw [honly r (Or.inl hr) (hknown r hpath) hpath] at hr
    exact root_not_orphan hids hr horphan

theorem total_of_noCycle (h : NoCycle s.loadAllNodes) : s.buildTree.Total where
  descends nodeId := by
    have hacyclic := (acyclic_buildTree_iff hids).mpr h
    obtain ⟨out, hout⟩ := exists_descendants hids hacyclic nodeId
    exact ⟨_, out, hout, (descendants_spec hids hacyclic hout).1⟩
  ascends nodeId := by
    have hacyclic := (acyclic_buildTree_iff hids).mpr h
    obtain ⟨fuel, out, hout⟩ := Forest.exists_climb (wellFounded_buildTree hids hacyclic) nodeId
    exact ⟨fuel, out, hout, Forest.nodup_climb hacyclic hout⟩
  placed nodeId hmem := by
    refine placed_of_acyclic hids ((acyclic_buildTree_iff hids).mpr h) ?_
    have hkeys : s.buildTree.nodes.keys = s.loadAllNodes.map HarnessNode.nodeId := by
      show (nodesById s.loadAllNodes).entries.map Prod.fst = _
      rw [entries_nodesById hids, List.map_map]
      rfl
    rw [hkeys] at hmem
    exact hmem

/-- On a cycle the walk up goes on for ever. -/
theorem noCycle_of_ascends
    (h : ∀ nodeId, ∃ fuel out, s.buildTree.ancestry fuel nodeId = some out ∧ out.Nodup) :
    NoCycle s.loadAllNodes := by
  rw [← acyclic_buildTree_iff hids]
  intro a hcycle
  obtain ⟨fuel, out, hout, _⟩ := h a
  rw [TreeView.ancestry, Forest.climb_of_cycle hcycle] at hout
  cases hout

/-- The view is total if and only if no node is its own ancestor. -/
theorem buildTree_total_iff : s.buildTree.Total ↔ NoCycle s.loadAllNodes :=
  ⟨fun h => noCycle_of_ascends hids h.ascends, total_of_noCycle hids⟩

end

/-! A root alone, and a node that names itself. -/

def nodeOf (nodeId : String) (parentId : Option String) : HarnessNode where
  nodeId := nodeId.toList
  parentId := parentId.map String.toList
  gitCommitSha := "c0ffee".toList
  gitBranch := "main".toList
  createdAt := "2026-01-01T00:00:00+00:00".toList
  createdAtIter := 0
  coreVersion := "unknown".toList
  patch := none

def storeOf (nodes : List HarnessNode) : TreeStore where
  nodes := .ofEntries (nodes.map fun n => (n.nodeId, some n))

theorem loadAllNodes_singleton (n : HarnessNode) : (storeOf [n]).loadAllNodes = [n] := by
  show (([(n.nodeId, some n)] : List (Str × Option HarnessNode)).mergeSort _).filterMap _ = _
  rw [List.mergeSort_singleton]
  rfl

theorem rootAlone_total : (storeOf [nodeOf "root" none]).buildTree.Total :=
  (buildTree_total_iff (by rw [loadAllNodes_singleton]; decide)).mpr (by
    rw [loadAllNodes_singleton]
    intro a h
    obtain ⟨b, ⟨n, hn, _, hparent⟩, _⟩ := Relation.TransGen.head'_iff.mp h
    obtain rfl := List.mem_singleton.mp hn
    cases hparent)

/-- A node that names itself: the walk up from it does not end. -/
theorem selfParent_not_total :
    ¬ ∀ s : TreeStore, (s.loadAllNodes.map HarnessNode.nodeId).Nodup → s.buildTree.Total := by
  intro hclaim
  have hids : ((storeOf [nodeOf "v1" (some "v1")]).loadAllNodes.map HarnessNode.nodeId).Nodup := by
    rw [loadAllNodes_singleton]
    decide
  have hnoCycle := noCycle_of_ascends hids (hclaim _ hids).ascends
  rw [loadAllNodes_singleton] at hnoCycle
  exact hnoCycle "v1".toList (TransGen.single ⟨_, List.mem_singleton_self _, rfl, rfl⟩)

end Evolver
end CodeCub

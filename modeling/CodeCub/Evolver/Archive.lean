import CodeCub.Evolver.Gates
import CodeCub.Evolver.Nodes
import Mathlib.Data.List.Infix

/-!
# The archive of elites

`pico/evolver/orchestrator/archive.py`: one elite for each cell, what is known of the
lineage of a promoted node, and the recombinations that were tried.  The text of the
archive file is its JSON value; `str.lower` is a parameter.
-/

namespace CodeCub
namespace Evolver

open Python

/-! ## Cells -/

/-- A candidate of a benchmark; the empty text stands for an attribute that is absent
or `None`. -/
structure BenchCandidate where
  why : Str := []
  /-- The names in `files`. -/
  files : List Str := []
  deletions : List Str := []
  focusedTaskIds : List Str := []
  summary : Str := []
  eliteNodeId : Str := []

inductive Candidate where
  | patch (patch : AppliedPatch)
  | bench (candidate : BenchCandidate)

def Candidate.eliteNodeId : Candidate → Str
  | .patch _ => []
  | .bench candidate => candidate.eliteNodeId

def Candidate.focusedTaskIds : Candidate → List Str
  | .patch _ => []
  | .bench candidate => candidate.focusedTaskIds

def Candidate.summary : Candidate → Str
  | .patch _ => []
  | .bench candidate => candidate.summary.take 300

/-- The order of `sorted` on strings. -/
def codePointLe : Str → Str → Bool
  | [], _ => true
  | _ :: _, [] => false
  | a :: as, b :: bs => a.toNat < b.toNat || (a.toNat == b.toNat && codePointLe as bs)

def sortedStrs (texts : List Str) : List Str := texts.mergeSort codePointLe

/-- `sorted(set(a) | set(b))`. -/
def sortedUnion (a b : List Str) : List Str := sortedStrs (a ++ b).dedup

def knowledgeMarkers : List Str := ["skills/".toList, "skill/".toList, "memory".toList]

def configSuffixes : List Str :=
  [".yaml".toList, ".yml".toList, ".json".toList, ".toml".toList, ".ini".toList, ".cfg".toList]

def promptSuffixes : List Str := [".md".toList, ".txt".toList, ".prompt".toList]

section Cells

variable (lower : Str → Str)

def leverOfPath (path : Str) : Str :=
  let p := lower (path.map fun c => if c = backslash then '/' else c)
  if knowledgeMarkers.any fun marker => marker <:+: p then "knowledge".toList
  else if configSuffixes.any fun suffix => suffix <:+ p then "config".toList
  else if promptSuffixes.any fun suffix => suffix <:+ p then "prompt".toList
  else "runtime".toList

def bindWhere (paths : List Str) : Str :=
  match (paths.map (leverOfPath lower)).dedup with
  | [] => "edit".toList
  | [lever] => lever
  | _ => "mixed".toList

/-- Changed and deleted paths. -/
def touchedPaths : Candidate → List Str × List Str
  | .patch patch => (patch.components.map PatchComponent.targetFile, [])
  | .bench candidate => (sortedStrs candidate.files, candidate.deletions)

def cellOf (cand : Candidate) : Option (Str × Str) :=
  match cand with
  | .patch patch =>
      some (bindWhere lower (patch.components.map PatchComponent.targetFile),
        if patch.patchWhy = .other then patch.patchWhyExtra else patch.patchWhy.value)
  | .bench candidate =>
      if candidate.why = [] then none
      else
        let touched := touchedPaths (.bench candidate)
        some (bindWhere lower (touched.1 ++ touched.2), candidate.why)

end Cells

/-! ## The archive -/

structure CellElite where
  cell : Str
  nodeId : Str
  gitCommitSha : Str
  score : ℚ
  roundIndex : Int
  why : Str
  lever : Str
  credited : Bool := false
  files : List Str := []
  deletions : List Str := []
  focusedTaskIds : List Str := []
  summary : Str := []

/-- What the lineage of a promoted node has stacked. -/
structure NodeMeta where
  cells : List Str := []
  files : List Str := []

structure GsmeArchive where
  cells : OrderedDict Str CellElite := ∅
  nodeMeta : OrderedDict Str NodeMeta := ∅
  pairings : OrderedDict Str (OrderedDict Str Str) := ∅

/-- The arguments of `consider`. -/
structure Considered where
  parentId : Str
  nodeId : Str
  gitCommitSha : Str
  cand : Candidate
  outcome : CandidateOutcome
  vanillaTrainMean : ℚ
  roundIndex : Int

namespace GsmeArchive

def recordPairing (archive : GsmeArchive) (parentId eliteNodeId status : Str) : GsmeArchive :=
  { archive with
    pairings := archive.pairings.set parentId
      (((archive.pairings.get parentId).getD ∅).set eliteNodeId status) }

def metaOf (archive : GsmeArchive) (nodeId : Str) : NodeMeta :=
  (archive.nodeMeta.get nodeId).getD {}

/-- The pairing of a recombinant. -/
def considerPairing (archive : GsmeArchive) (c : Considered) : GsmeArchive :=
  if c.cand.eliteNodeId = [] then archive
  else archive.recordPairing c.parentId c.cand.eliteNodeId c.outcome.status.value

/-- The lineage of a promoted node. -/
def considerLineage (archive : GsmeArchive) (c : Considered) (key : Str) : GsmeArchive :=
  if c.outcome.promoted then
    { archive with
      nodeMeta := archive.nodeMeta.set c.nodeId
        { cells := sortedUnion (archive.metaOf c.parentId).cells [key]
          files := sortedUnion (archive.metaOf c.parentId).files
            ((touchedPaths c.cand).1 ++ (touchedPaths c.cand).2) } }
  else archive

def eliteOf (c : Considered) (key lever why : Str) : CellElite where
  cell := key
  nodeId := c.nodeId
  gitCommitSha := c.gitCommitSha
  score := c.outcome.score
  roundIndex := c.roundIndex
  why := why
  lever := lever
  credited := c.outcome.paired.any PairedResult.credited2sigma
  files := (touchedPaths c.cand).1
  deletions := (touchedPaths c.cand).2
  focusedTaskIds := c.cand.focusedTaskIds
  summary := c.cand.summary

/-- The elite of the cell. -/
def considerElite (archive : GsmeArchive) (c : Considered) (key lever why : Str) : GsmeArchive :=
  if !c.outcome.promoted || c.outcome.confirmEvals.entries.isEmpty ||
      c.outcome.score ≤ c.vanillaTrainMean then archive
  else if (archive.cells.get key).any fun prev => c.outcome.score ≤ prev.score then archive
  else { archive with cells := archive.cells.set key (eliteOf c key lever why) }

def cellKey (lever why : Str) : Str := lever ++ "::".toList ++ why

def consider (lower : Str → Str) (archive : GsmeArchive) (c : Considered) : GsmeArchive :=
  let archive := archive.considerPairing c
  match cellOf lower c.cand with
  | none => archive
  | some (lever, why) =>
      (archive.considerLineage c (cellKey lever why)).considerElite c (cellKey lever why) lever why

/-! ## Recombination proposals -/

/-- Higher scores first, then by the key. -/
def rankedBefore (a b : Str × CellElite) : Bool :=
  b.2.score < a.2.score || (a.2.score == b.2.score && codePointLe a.1 b.1)

def eligible (archive : GsmeArchive) (parentId : Str) (entry : Str × CellElite) : Bool :=
  let lineage := archive.metaOf parentId
  let tried := (archive.pairings.get parentId).getD ∅
  entry.1 ∉ lineage.cells && entry.2.nodeId ≠ parentId && (tried.get entry.2.nodeId).isNone &&
    (entry.2.files ++ entry.2.deletions).all (· ∉ lineage.files)

def eligibleElites (archive : GsmeArchive) (parentId : Str) (limit : Int) : List CellElite :=
  if limit ≤ 0 then []
  else
    (((archive.cells.entries.mergeSort rankedBefore).filter (archive.eligible parentId)).take
      limit.toNat).map Prod.snd

end GsmeArchive

/-! ## The file -/

abbrev Value := Json Str ℚ

def strsValue (texts : List Str) : Value := .arr (texts.map Json.str)

def CellElite.toDict (e : CellElite) : Value :=
  .obj [("cell".toList, .str e.cell), ("node_id".toList, .str e.nodeId),
    ("git_commit_sha".toList, .str e.gitCommitSha), ("score".toList, .float e.score),
    ("round_index".toList, .int e.roundIndex), ("why".toList, .str e.why),
    ("where".toList, .str e.lever), ("credited".toList, .bool e.credited),
    ("files".toList, strsValue e.files), ("deletions".toList, strsValue e.deletions),
    ("focused_task_ids".toList, strsValue e.focusedTaskIds), ("summary".toList, .str e.summary)]

def NodeMeta.toDict (m : NodeMeta) : Value :=
  .obj [("cells".toList, strsValue m.cells), ("files".toList, strsValue m.files)]

def dictValue {α : Type} (value : α → Value) (d : OrderedDict Str α) : Value :=
  .obj (d.entries.map fun entry => (entry.1, value entry.2))

def GsmeArchive.toDict (archive : GsmeArchive) : Value :=
  .obj [("cells".toList, dictValue CellElite.toDict archive.cells),
    ("node_meta".toList, dictValue NodeMeta.toDict archive.nodeMeta),
    ("pairings".toList, dictValue (dictValue Json.str) archive.pairings)]

/-! ### Reading it back -/

def field? (value : Value) (name : String) : Option Value :=
  match value with
  | .obj fields => fields.lookup name.toList
  | _ => none

def str? : Value → Option Str
  | .str text => some text
  | _ => none

def strs? : Value → Option (List Str)
  | .arr items => items.mapM str?
  | _ => none

def float? : Value → Option ℚ
  | .float x => some x
  | .int n => some n
  | _ => none

def int? : Value → Option Int
  | .int n => some n
  | _ => none

def bool? : Value → Option Bool
  | .bool b => some b
  | _ => none

def dict? {α : Type} (read : Value → Option α) : Value → Option (OrderedDict Str α)
  | .obj fields =>
      (fields.mapM fun entry => (read entry.2).map fun v => (entry.1, v)).map OrderedDict.ofEntries
  | _ => none

/-- A field with a default. -/
def fieldOr {α : Type} (read : Value → Option α) (value : Value) (name : String) (default : α) :
    Option α :=
  match field? value name with
  | none => some default
  | some v => read v

def CellElite.fromDict (d : Value) : Option CellElite := do
  return { cell := ← (field? d "cell").bind str?
           nodeId := ← (field? d "node_id").bind str?
           gitCommitSha := ← (field? d "git_commit_sha").bind str?
           score := ← (field? d "score").bind float?
           roundIndex := ← (field? d "round_index").bind int?
           why := ← (field? d "why").bind str?
           lever := ← fieldOr str? d "where" "edit".toList
           credited := ← fieldOr bool? d "credited" false
           files := ← fieldOr strs? d "files" []
           deletions := ← fieldOr strs? d "deletions" []
           focusedTaskIds := ← fieldOr strs? d "focused_task_ids" []
           summary := ← fieldOr str? d "summary" [] }

def NodeMeta.fromDict (d : Value) : Option NodeMeta := do
  return { cells := ← fieldOr strs? d "cells" [], files := ← fieldOr strs? d "files" [] }

def GsmeArchive.fromDict (d : Value) : Option GsmeArchive := do
  return { cells := ← fieldOr (dict? CellElite.fromDict) d "cells" ∅
           nodeMeta := ← fieldOr (dict? NodeMeta.fromDict) d "node_meta" ∅
           pairings := ← fieldOr (dict? (dict? str?)) d "pairings" ∅ }

/-- `_load`: a file that cannot be read gives an empty archive. -/
def GsmeArchive.load (file : Option Value) : GsmeArchive :=
  match file with
  | none => {}
  | some d => (GsmeArchive.fromDict d).getD {}

theorem mapM_map_some {α β : Type} {f : α → β} {g : β → Option α} (h : ∀ a, g (f a) = some a)
    (l : List α) : (l.map f).mapM g = some l := by
  induction l with
  | nil => rfl
  | cons a rest ih =>
      rw [List.map_cons, List.mapM_cons, h, ih]
      rfl

theorem strs?_strsValue (texts : List Str) : strs? (strsValue texts) = some texts :=
  mapM_map_some (f := Json.str) (g := str?) (fun _ => rfl) texts

theorem dict?_dictValue {α : Type} {value : α → Value} {read : Value → Option α}
    (h : ∀ a, read (value a) = some a) (d : OrderedDict Str α) :
    dict? read (dictValue value d) = some d := by
  have hentries := mapM_map_some (f := fun entry : Str × α => (entry.1, value entry.2))
    (g := fun entry => (read entry.2).map fun v => (entry.1, v)) (fun entry => by simp [h]) d.entries
  rw [dictValue, dict?, hentries, Option.map_some, OrderedDict.ofEntries_entries]

theorem CellElite.fromDict_toDict (e : CellElite) : CellElite.fromDict e.toDict = some e := by
  simp [CellElite.fromDict, CellElite.toDict, field?, fieldOr, List.lookup_cons, str?, float?, int?,
    bool?, strs?_strsValue]

theorem NodeMeta.fromDict_toDict (m : NodeMeta) : NodeMeta.fromDict m.toDict = some m := by
  simp [NodeMeta.fromDict, NodeMeta.toDict, field?, fieldOr, List.lookup_cons, strs?_strsValue]

/-- An archive that was saved is loaded. -/
theorem GsmeArchive.load_toDict (archive : GsmeArchive) :
    GsmeArchive.load (some archive.toDict) = archive := by
  have hpairings : ∀ d : OrderedDict Str Str, dict? str? (dictValue Json.str d) = some d :=
    dict?_dictValue fun _ => rfl
  rw [load, GsmeArchive.toDict]
  simp [GsmeArchive.fromDict, field?, fieldOr, List.lookup_cons, dict?_dictValue CellElite.fromDict_toDict,
    dict?_dictValue NodeMeta.fromDict_toDict, dict?_dictValue hpairings]

end Evolver
end CodeCub

import CodeCub.Evolver.Archive

/-!
# One round

`_run_round` of `pico/evolver/orchestrator/loop.py`.  Scores are of any type with an
order.  An injected function sees a node through its id and its commit; where a function
is called for several candidates, it is also told which call it is, since it may answer
two equal calls differently.  The hooks whose result and error the loop drops are left
out.
-/

namespace CodeCub
namespace Evolver

open Python

/-- A node as the loop and the injected functions see it. -/
@[ext]
structure NodeRef where
  nodeId : Str
  gitCommitSha : Str
  sha_ne : gitCommitSha ≠ [] := by decide

instance : DecidableEq NodeRef := fun _ _ => decidable_of_iff _ NodeRef.ext_iff.symm

/-- What is decided of a candidate. -/
structure Outcome (S : Type) where
  status : NodeStatus
  score : S
  confirmEvals : Evals := ∅
  paired : Option PairedResult := none
  verdict : EvaluationVerdict

namespace Outcome

variable {S : Type}

def promoted (o : Outcome S) : Bool := o.status = .promotedToBaseline && o.verdict = .accepted

/-- No real decision was made. -/
def undecided (o : Outcome S) : Bool := o.verdict = .failed || o.verdict = .inconclusive

/-- An outcome of the loop itself, with the verdict of its status. -/
def ofStatus [Zero S] (status : NodeStatus) : Outcome S where
  status := status
  score := 0
  verdict :=
    match status with
    | .promotedToBaseline => .accepted
    | .errored => .failed
    | _ => .rejected

end Outcome

/-! ## The failure map -/

/-- `flip_summary`, with the round and the control it is about. -/
structure Flips where
  round : Nat
  versus : Str
  nRescued : Nat
  nRegressed : Nat
  nStillFailing : Nat
  rescued : List Str
  regressed : List Str
  stillFailing : List Str

def flipSummary (candidate control : Evals) (taskIds : List Str) (round : Nat) (label : Str) :
    Flips :=
  let rescued := taskIds.filter fun t => rate control t < rate candidate t
  let regressed := taskIds.filter fun t => rate candidate t < rate control t
  let stillFailing := taskIds.filter fun t => rate candidate t < 1
  { round := round
    versus := label
    nRescued := rescued.length
    nRegressed := regressed.length
    nStillFailing := stillFailing.length
    rescued := rescued.take 12
    regressed := regressed.take 12
    stillFailing := stillFailing.take 12 }

/-- The keys that the loop keeps in the map, and what the diagnoses have put there. -/
structure FailureMap where
  diagnosedParents : List Str := []
  flips : OrderedDict Str Flips := ∅
  diagnoses : Value := .obj []

/-! ## What the loop is given -/

/-- What the loop asks of the archive; `F` is the value of its file. -/
structure ArchiveOps (S A F : Type) where
  eligible : A → Str → Except Str (List CellElite)
  recordPairing : A → Str → Str → Str → A
  consider : A → Str → NodeRef → Candidate → Outcome S → Nat → A
  save : A → F
  load : Option F → A

/-- What a policy is told of a candidate; the tasks are those of the configuration. -/
structure Decision where
  node : NodeRef
  parentId : Str
  roundIndex : Nat
  baseline : Baseline
  anchor : AnchorSelection
  focusedTaskIds : List Str

inductive ApplyError where
  /-- `ManifestGateError`. -/
  | manifestGate (message : Str)
  | other (message : Str)

structure RoundResult (S : Type) where
  roundIndex : Nat
  parentId : Str
  nextParentId : Str
  promoted : Bool
  outcomes : List (Outcome S) := []
  beatVanilla : Bool := false
  errored : Bool := false
  nextParentSha : Option Str := none
  nextParentTrain : Option S := none
  verdict : Option Str := none

/-- The injected functions; an error is an exception. -/
structure Injected (S : Type) where
  precheck : Except Str Unit
  selectAnchor : Except Str AnchorSelection
  forRound : Nat → NodeRef → AnchorSelection → Except Str Baseline
  diagnose : Nat → NodeRef → Except Str FailureMap
  design : Nat → FailureMap → NodeRef → Except Str (List Candidate)
  preflight : Nat → Candidate → NodeRef → Except Str Bool
  recombine : Nat → NodeRef → CellElite → Except Str (Option Candidate)
  apply : Nat → Str → Candidate → Nat → Except ApplyError NodeRef
  focusedSource : Nat → NodeRef → Except Str (List Str)
  decide : Nat → Decision → Except Str (Outcome S)
  evidence : Nat → Decision → Outcome S → Except Str Unit
  onPromote : Nat → NodeRef → Outcome S → Except Str Unit
  draftVerdict : RoundResult S → Except Str (Option Str)

/-- The configuration, and `merge_failure_maps`. -/
structure RoundConfig (S A F : Type) where
  vanillaTrainMean : S
  trainTaskIds : List Str
  mergeFailureMaps : FailureMap → FailureMap → Except Str FailureMap
  archive : ArchiveOps S A F

/-! ## The begin of a round -/

/-- What an orchestrator holds in memory, and the file of its failure map. -/
structure Work (A : Type) where
  failureMap : FailureMap
  mapFile : Option FailureMap
  registry : OrderedDict Str NodeRef := ∅
  archive : A

/-- What a round has found out when it starts to design. -/
structure Entrance where
  parent : NodeRef
  anchor : AnchorSelection
  /-- None when the control arm failed. -/
  baseline : Option Baseline
  diagnosed : Bool

/-- `_load_parent`. -/
def loadParent (registry : OrderedDict Str NodeRef) (parentId : Str) : NodeRef :=
  (registry.get parentId).getD { nodeId := parentId, gitCommitSha := "unknown".toList }

section Round

variable {S A F : Type} (config : RoundConfig S A F) (inj : Injected S)

/-- The diagnosis of a parent that was not diagnosed yet; false when it failed. -/
def diagnoseParent (round : Nat) (parentId : Str) (parent : NodeRef) (w : Work A) :
    Work A × Bool :=
  if parentId ∈ w.failureMap.diagnosedParents then (w, true)
  else
    match inj.diagnose round parent with
    | .error _ => (w, false)
    | .ok roundMap =>
        match config.mergeFailureMaps w.failureMap roundMap with
        | .error _ => (w, false)
        | .ok merged =>
            let failureMap :=
              { merged with
                diagnosedParents := sortedUnion w.failureMap.diagnosedParents [parentId] }
            ({ w with failureMap := failureMap, mapFile := some failureMap }, true)

/-- The round up to the diagnosis. -/
def enterRound (round : Nat) (parentId : Str) (w : Work A) : Except Str (Work A × Entrance) := do
  inj.precheck
  let parent := loadParent w.registry parentId
  let anchor ← inj.selectAnchor
  match inj.forRound round parent anchor with
  | .error _ => return (w, { parent, anchor, baseline := none, diagnosed := false })
  | .ok baseline =>
      let (w, diagnosed) := diagnoseParent config inj round parentId parent w
      return (w, { parent, anchor, baseline := some baseline, diagnosed })

/-! ## The candidates -/

/-- The candidates that pass the preflight, one outcome for each other candidate, and
whether every call of the preflight returned. -/
def preflightAll (parent : NodeRef) [Zero S] :
    Nat → List Candidate → List Candidate × List (Outcome S) × Bool
  | _, [] => ([], [], true)
  | i, cand :: rest =>
      match inj.preflight i cand parent with
      | .error _ => ([], [], false)
      | .ok keep =>
          let (kept, pruned, returned) := preflightAll parent (i + 1) rest
          if keep then (cand :: kept, pruned, returned)
          else (kept, Outcome.ofStatus .prunedInert :: pruned, returned)

/-- The designed candidates and the outcomes of the design. -/
def designAll [Zero S] (round : Nat) (w : Work A) (e : Entrance) :
    List Candidate × List (Outcome S) :=
  if !e.diagnosed then ([], [.ofStatus .errored])
  else
    match inj.design round w.failureMap e.parent with
    | .error _ => ([], [.ofStatus .errored])
    | .ok designed =>
        match preflightAll inj e.parent 0 designed with
        | (kept, pruned, true) => (kept, pruned)
        | (_, pruned, false) => ([], pruned ++ [.ofStatus .errored])

/-- The recombinants of the elites, and whether every call returned. -/
def recombineElites (parentId : Str) (parent : NodeRef) :
    Nat → List CellElite → A → List Candidate × A × Bool
  | _, [], archive => ([], archive, true)
  | i, elite :: rest, archive =>
      match inj.recombine i parent elite with
      | .error _ => ([], archive, false)
      | .ok none =>
          recombineElites parentId parent (i + 1) rest
            (config.archive.recordPairing archive parentId elite.nodeId
              "recombine_failed".toList)
      | .ok (some cand) =>
          let (cands, archive, returned) := recombineElites parentId parent (i + 1) rest archive
          (cand :: cands, archive, returned)

/-- The recombinants, their outcomes, the archive and the elites that were proposed. -/
def recombineAll [Zero S] (parentId : Str) (parent : NodeRef) (archive : A) :
    List Candidate × List (Outcome S) × A × List CellElite :=
  match config.archive.eligible archive parentId with
  | .error _ => ([], [.ofStatus .errored], archive, [])
  | .ok elites =>
      let (cands, archive, returned) := recombineElites config inj parentId parent 0 elites archive
      (cands, if returned then [] else [.ofStatus .errored], archive, elites)

/-! ## The decisions -/

/-- The loop over the candidates. -/
structure Tally (S A : Type) where
  work : Work A
  outcomes : List (Outcome S)
  /-- The nodes of the outcomes that a policy has decided. -/
  decided : List (NodeRef × Outcome S) := []
  bestNodeId : Option Str := none
  bestScore : S

namespace Tally

variable {config inj}

/-- An outcome without a decision of the policy, and the pairing of a recombinant. -/
def fail [Zero S] (config : RoundConfig S A F) (t : Tally S A) (parentId : Str) (cand : Candidate)
    (status : NodeStatus) : Tally S A :=
  { t with
    work :=
      if cand.eliteNodeId = [] then t.work
      else { t.work with
        archive := config.archive.recordPairing t.work.archive parentId cand.eliteNodeId
          status.value }
    outcomes := t.outcomes ++ [.ofStatus status] }

def register (t : Tally S A) (node : NodeRef) : Tally S A :=
  { t with work := { t.work with registry := t.work.registry.set node.nodeId node } }

/-- The flips of a confirmation. -/
def noteFlips (t : Tally S A) (trainTaskIds : List Str) (ctx : Decision) (o : Outcome S) :
    Tally S A :=
  if o.confirmEvals.entries.isEmpty then t
  else
    { t with
      work := { t.work with
        failureMap := { t.work.failureMap with
          flips := t.work.failureMap.flips.set ctx.node.nodeId
            (flipSummary o.confirmEvals ctx.baseline.evals trainTaskIds ctx.roundIndex
              ctx.baseline.label) } } }

/-- The outcome is noted, by the archive as well. -/
def note (config : RoundConfig S A F) (t : Tally S A) (ctx : Decision) (cand : Candidate)
    (o : Outcome S) : Tally S A :=
  { t with
    work := { t.work with
      archive := config.archive.consider t.work.archive ctx.parentId ctx.node cand o
        ctx.roundIndex }
    outcomes := t.outcomes ++ [o]
    decided := t.decided ++ [(ctx.node, o)] }

/-- The argmax. -/
def choose [LT S] [DecidableLT S] (t : Tally S A) (node : NodeRef) (o : Outcome S) : Tally S A :=
  if t.bestScore < o.score then { t with bestScore := o.score, bestNodeId := some node.nodeId }
  else t

end Tally

/-- `outcome.status = errored` and `outcome.verdict = failed` when the evidence hook raises. -/
def withEvidence (idx : Nat) (ctx : Decision) (o : Outcome S) : Outcome S :=
  match inj.evidence idx ctx o with
  | .ok () => o
  | .error _ => { o with status := .errored, verdict := .failed }

variable [Zero S] [LT S] [DecidableLT S]

/-- The context of the decision over a node. -/
def decisionOf (round : Nat) (parentId : Str) (e : Entrance) (baseline : Baseline) (node : NodeRef)
    (focusedTaskIds : List Str) : Decision where
  node := node
  parentId := parentId
  roundIndex := round
  baseline := baseline
  anchor := e.anchor
  focusedTaskIds := focusedTaskIds

/-- The decision over an applied candidate. -/
def decideNode (idx : Nat) (cand : Candidate) (ctx : Decision) (t : Tally S A) :
    Except Str (Tally S A) :=
  match inj.decide idx ctx with
  | .error _ => .ok (t.fail config ctx.parentId cand .errored)
  | .ok decided =>
      let o := withEvidence inj idx ctx decided
      let t := (t.noteFlips config.trainTaskIds ctx decided).note config ctx cand o
      if o.promoted then
        match inj.onPromote idx ctx.node o with
        | .error error => .error error
        | .ok () => .ok (t.choose ctx.node o)
      else .ok t

def tryCandidate (round : Nat) (parentId : Str) (e : Entrance) (baseline : Baseline) (idx : Nat)
    (cand : Candidate) (t : Tally S A) : Except Str (Tally S A) :=
  match inj.apply idx parentId cand round with
  | .error (.manifestGate _) => .ok (t.fail config parentId cand .rejectedAtManifest)
  | .error (.other _) => .ok (t.fail config parentId cand .errored)
  | .ok node =>
      match inj.focusedSource idx node with
      | .error error => .error error
      | .ok focusedTaskIds =>
          decideNode config inj idx cand (decisionOf round parentId e baseline node focusedTaskIds)
            (t.register node)

def tryAll (round : Nat) (parentId : Str) (e : Entrance) (baseline : Baseline) :
    Nat → List Candidate → Tally S A → Except Str (Tally S A)
  | _, [], t => .ok t
  | idx, cand :: rest, t =>
      match tryCandidate config inj round parentId e baseline idx cand t with
      | .error error => .error error
      | .ok t => tryAll round parentId e baseline (idx + 1) rest t

/-! ## The end of a round -/

/-- The result of a round with the nodes that were decided and the elites that were
proposed in it. -/
structure RoundReport (S : Type) where
  result : RoundResult S
  decided : List (NodeRef × Outcome S) := []
  proposed : List CellElite := []

/-- `_sha_or_none`. -/
def shaOrNone (sha : Str) : Option Str :=
  if sha = [] ∨ sha = "unknown".toList then none else some sha

/-- A promoted node that beats the score of the incumbent. -/
def champion (t : Tally S A) (parentScore : S) : Option Str :=
  if parentScore < t.bestScore then t.bestNodeId else none

def roundResult (round : Nat) (parentId : Str) (parentScore : S) (e : Entrance) (t : Tally S A) :
    RoundResult S :=
  let next := (champion t parentScore).getD parentId
  { roundIndex := round
    parentId := parentId
    nextParentId := next
    promoted := (champion t parentScore).isSome
    outcomes := t.outcomes
    beatVanilla := t.outcomes.any fun o =>
      o.verdict = .accepted && !o.confirmEvals.entries.isEmpty &&
        config.vanillaTrainMean < o.score
    errored := !t.outcomes.isEmpty && t.outcomes.all Outcome.undecided
    nextParentSha := shaOrNone ((t.work.registry.get next).getD e.parent).gitCommitSha
    nextParentTrain := if (champion t parentScore).isSome then some t.bestScore else none }

/-- The result of a round whose control arm failed. -/
def baselineFailed (round : Nat) (parentId : Str) (parent : NodeRef) : RoundResult S where
  roundIndex := round
  parentId := parentId
  nextParentId := parentId
  promoted := false
  outcomes := [.ofStatus .errored]
  errored := true
  nextParentSha := shaOrNone parent.gitCommitSha

/-- The failure map is written when there are flips to write. -/
def persistFlips (t : Tally S A) : Work A :=
  if t.outcomes.any fun o => !o.confirmEvals.entries.isEmpty then
    { t.work with mapFile := some t.work.failureMap }
  else t.work

variable [One S] [Neg S]

/-- The tally before the first candidate. -/
def startTally (w : Work A) (archive : A) (outcomes : List (Outcome S)) : Tally S A where
  work := { w with archive := archive }
  outcomes := outcomes
  bestScore := -1

/-- The round after its last candidate; an error comes with the file of the failure map. -/
def closeRound (round : Nat) (parentId : Str) (parentScore : S) (e : Entrance)
    (proposed : List CellElite) (t : Tally S A) :
    Except (Str × Option FailureMap) (Work A × RoundReport S) :=
  let result := roundResult config round parentId parentScore e t
  match inj.draftVerdict result with
  | .error error => .error (error, (persistFlips t).mapFile)
  | .ok verdict =>
      .ok (persistFlips t,
        { result := { result with verdict := verdict }, decided := t.decided, proposed })

/-- The round from the design on. -/
def finishRound (round : Nat) (parentId : Str) (parentScore : S) (w : Work A) (e : Entrance) :
    Except (Str × Option FailureMap) (Work A × RoundReport S) :=
  match e.baseline with
  | none => .ok (w, { result := baselineFailed round parentId e.parent })
  | some baseline =>
      let (designed, outcomes) := designAll inj round w e
      let (recombined, failures, archive, proposed) :=
        recombineAll config inj parentId e.parent w.archive
      match tryAll config inj round parentId e baseline 0 (designed ++ recombined)
          (startTally w archive (outcomes ++ failures)) with
      | .error error => .error (error, w.mapFile)
      | .ok t => closeRound config inj round parentId parentScore e proposed t

end Round

end Evolver
end CodeCub

import CodeCub.Evolver.Round
import CodeCub.Machine.Run

/-!
# The loop

`run` of `pico/evolver/orchestrator/loop.py`, with `termination.py` and
`state/journal.py`: a round is recorded in the journal before the archive is saved, and a
new orchestrator replays the journal.  The journal is the list of its records; the other
files are their JSON values.
-/

namespace CodeCub
namespace Evolver

open Python

/-! ## Termination -/

structure Termination where
  patience : Nat := 10
  maxRounds : Nat := 20
  maxConsecutiveErrors : Nat := 5
  patience_pos : 1 ≤ patience := by decide
  maxRounds_pos : 1 ≤ maxRounds := by decide
  maxConsecutiveErrors_pos : 1 ≤ maxConsecutiveErrors := by decide

def Termination.standard : Termination := {}

structure TerminationTracker where
  roundsCompleted : Nat := 0
  consecutiveNoPromotion : Nat := 0
  consecutiveErrors : Nat := 0

inductive StopReason where
  | maxRounds
  | errorsExhausted
  | patienceExhausted
  deriving DecidableEq

namespace TerminationTracker

def recordRound (term : TerminationTracker) (promoted errored : Bool) : TerminationTracker where
  roundsCompleted := term.roundsCompleted + 1
  consecutiveNoPromotion :=
    if errored then term.consecutiveNoPromotion
    else if promoted then 0
    else term.consecutiveNoPromotion + 1
  consecutiveErrors := if errored then term.consecutiveErrors + 1 else 0

def shouldStop (limits : Termination) (term : TerminationTracker) : Option StopReason :=
  if limits.maxRounds ≤ term.roundsCompleted then some .maxRounds
  else if limits.maxConsecutiveErrors ≤ term.consecutiveErrors then some .errorsExhausted
  else if limits.patience ≤ term.consecutiveNoPromotion then some .patienceExhausted
  else none

end TerminationTracker

/-! ## The journal -/

/-- What is read of a record; a record of an older version lacks some fields. -/
structure Checkpoint (S : Type) where
  roundIndex : Nat
  parentId : Str
  nextParentId : Str
  promoted : Bool
  beatVanilla : Option Bool
  errored : Option Bool
  nextParentSha : Option Str
  nextParentTrain : Option S

/-- The record of `append`. -/
def RoundResult.checkpoint {S : Type} (r : RoundResult S) : Checkpoint S where
  roundIndex := r.roundIndex
  parentId := r.parentId
  nextParentId := r.nextParentId
  promoted := r.promoted
  beatVanilla := some r.beatVanilla
  errored := some r.errored
  nextParentSha := r.nextParentSha
  nextParentTrain := r.nextParentTrain

/-! ## The orchestrator -/

structure LoopConfig (S A F : Type) extends RoundConfig S A F where
  rootNodeId : Str
  rootNode : Option NodeRef := none
  seedFailureMap : FailureMap := {}
  limits : Termination := .standard

/-- The files of the work directory that an orchestrator reads. -/
structure Disk (S F : Type) where
  journal : List (Checkpoint S) := []
  mapFile : Option FailureMap := none
  archiveFile : Option F := none

inductive Ending where
  | stopped (reason : StopReason)
  | raised (error : Str)
  deriving DecidableEq

/-- A running orchestrator between two rounds, or one that has ended. -/
structure Process (S A : Type) where
  failureMap : FailureMap
  registry : OrderedDict Str NodeRef
  archive : A
  parentId : Str
  parentScore : S
  roundIndex : Nat := 0
  term : TerminationTracker := {}
  ending : Option Ending := none

section Loop

variable {S A F : Type} (config : LoopConfig S A F)

/-- A replayed record of a promotion registers the commit of the new parent. -/
def replayNode (registry : OrderedDict Str NodeRef) (rec : Checkpoint S) :
    OrderedDict Str NodeRef :=
  match rec.nextParentSha with
  | none => registry
  | some sha =>
      if h : sha = [] ∨ rec.nextParentId = rec.parentId ∨
          (registry.get rec.nextParentId).isSome = true then registry
      else
        registry.set rec.nextParentId
          { nodeId := rec.nextParentId, gitCommitSha := sha, sha_ne := fun hsha => h (.inl hsha) }

def replay (p : Process S A) (rec : Checkpoint S) : Process S A :=
  { p with
    registry := replayNode p.registry rec
    parentId := rec.nextParentId
    parentScore := rec.nextParentTrain.getD p.parentScore
    roundIndex := rec.roundIndex
    term := p.term.recordRound (rec.beatVanilla.getD rec.promoted) (rec.errored.getD false) }

/-- A new orchestrator, before it reads the journal. -/
def newProcess (disk : Disk S F) : Process S A where
  failureMap := config.seedFailureMap
  registry := (config.rootNode.map fun node => (∅ : OrderedDict Str NodeRef).set node.nodeId node).getD ∅
  archive := config.archive.load disk.archiveFile
  parentId := config.rootNodeId
  parentScore := config.vanillaTrainMean

/-- A new orchestrator that has replayed the journal. -/
def resume (disk : Disk S F) : Process S A :=
  let p := disk.journal.foldl replay (newProcess config disk)
  { p with
    failureMap :=
      if disk.journal.isEmpty then p.failureMap else disk.mapFile.getD p.failureMap
    ending := (p.term.shouldStop config.limits).map .stopped }

/-! ## Runs -/

structure LoopState (S A F : Type) where
  disk : Disk S F
  process : Process S A

def newLoop : LoopState S A F where
  disk := {}
  process := resume config {}

inductive LoopStep (S : Type) where
  /-- A round with all that is written after it. -/
  | round (inj : Injected S)
  /-- A round; the process is killed when the round is in the journal and the archive is not
  yet saved, and a new one resumes. -/
  | cutRound (inj : Injected S)
  /-- The begin of a round, up to the diagnosis; the process is killed there, and a new one
  resumes. -/
  | cutEntrance (inj : Injected S)
  /-- The process is killed between two rounds, or has ended; a new one resumes. -/
  | resume

def Process.work (p : Process S A) (disk : Disk S F) : Work A where
  failureMap := p.failureMap
  mapFile := disk.mapFile
  registry := p.registry
  archive := p.archive

/-- The process after a round, with its new counters. -/
def Process.advance (p : Process S A) (w : Work A) (r : RoundResult S) : Process S A :=
  let term := p.term.recordRound r.beatVanilla r.errored
  { failureMap := w.failureMap
    registry := w.registry
    archive := w.archive
    parentId := r.nextParentId
    parentScore := if r.promoted then r.nextParentTrain.getD p.parentScore else p.parentScore
    roundIndex := r.roundIndex
    term := term
    ending := (term.shouldStop config.limits).map .stopped }

variable [Zero S] [One S] [Neg S] [LT S] [DecidableLT S]

/-- The round of a process; an error comes with the file of the failure map. -/
def runRound (inj : Injected S) (s : LoopState S A F) :
    Except (Str × Option FailureMap) (Work A × RoundReport S) :=
  match enterRound config.toRoundConfig inj (s.process.roundIndex + 1) s.process.parentId
      (s.process.work s.disk) with
  | .error error => .error (error, s.disk.mapFile)
  | .ok (w, e) =>
      finishRound config.toRoundConfig inj (s.process.roundIndex + 1) s.process.parentId
        s.process.parentScore w e

/-- The process raises. -/
def LoopState.abort (s : LoopState S A F) (failure : Str × Option FailureMap) :
    LoopState S A F where
  disk := { s.disk with mapFile := failure.2 }
  process := { s.process with ending := some (.raised failure.1) }

/-- The round is written to the journal. -/
def recorded (s : LoopState S A F) (w : Work A) (r : RoundResult S) : Disk S F :=
  { s.disk with journal := s.disk.journal ++ [r.checkpoint], mapFile := w.mapFile }

/-- The archive is saved as well. -/
def saved (s : LoopState S A F) (w : Work A) (r : RoundResult S) : Disk S F :=
  { recorded s w r with archiveFile := some (config.archive.save w.archive) }

def loopMachine : Machine (LoopState S A F) (LoopStep S) (Option (RoundReport S)) where
  step s i :=
    match i with
    | .resume => ({ s with process := resume config s.disk }, none)
    | .cutEntrance inj =>
        if s.process.ending.isSome then (s, none)
        else
          match enterRound config.toRoundConfig inj (s.process.roundIndex + 1) s.process.parentId
              (s.process.work s.disk) with
          | .error error => (s.abort (error, s.disk.mapFile), none)
          | .ok (w, _) =>
              let disk := { s.disk with mapFile := w.mapFile }
              ({ disk := disk, process := resume config disk }, none)
    | .round inj =>
        if s.process.ending.isSome then (s, none)
        else
          match runRound config inj s with
          | .error failure => (s.abort failure, none)
          | .ok (w, report) =>
              ({ disk := saved config s w report.result
                 process := s.process.advance config w report.result }, some report)
    | .cutRound inj =>
        if s.process.ending.isSome then (s, none)
        else
          match runRound config inj s with
          | .error failure => (s.abort failure, none)
          | .ok (w, report) =>
              let disk := recorded s w report.result
              ({ disk := disk, process := resume config disk }, some report)

end Loop

end Evolver
end CodeCub

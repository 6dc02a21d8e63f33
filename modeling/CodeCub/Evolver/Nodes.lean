import CodeCub.Python.Json

/-!
# Patches and nodes

`pico/evolver/tree/node.py`: what the archive and the tree store read of a patch and of
a node.
-/

namespace CodeCub
namespace Evolver

open Python

inductive PatchWhy where
  | repetitionBreaker
  | testStarvationRemedy
  | budgetAwareness
  | toolClarity
  | envContractClarify
  | skillGapFill
  | memoryRecallFix
  | reasoningVisibility
  | emptyResponseRecovery
  | methodLockInRemedy
  | infraNeutralityControl
  | other
  deriving DecidableEq

def PatchWhy.value : PatchWhy → Str
  | .repetitionBreaker => "repetition_breaker".toList
  | .testStarvationRemedy => "test_starvation_remedy".toList
  | .budgetAwareness => "budget_awareness".toList
  | .toolClarity => "tool_clarity".toList
  | .envContractClarify => "env_contract_clarify".toList
  | .skillGapFill => "skill_gap_fill".toList
  | .memoryRecallFix => "memory_recall_fix".toList
  | .reasoningVisibility => "reasoning_visibility".toList
  | .emptyResponseRecovery => "empty_response_recovery".toList
  | .methodLockInRemedy => "method_lock_in_remedy".toList
  | .infraNeutralityControl => "infra_neutrality_control".toList
  | .other => "other".toList

/-- One file of a patch. -/
structure PatchComponent where
  targetFile : Str
  diff : Str
  deriving DecidableEq

/-- `patch_why_extra` is given, and not empty, where `patch_why` is `other`. -/
structure AppliedPatch where
  patchWhy : PatchWhy
  patchWhyExtra : Str := []
  components : List PatchComponent
  extra_of_other : patchWhy = .other → patchWhyExtra ≠ [] := by decide
  deriving DecidableEq

/-- `"\n".join(c.diff for c in components)`. -/
def AppliedPatch.diff (patch : AppliedPatch) : Str :=
  (patch.components.map PatchComponent.diff).intersperse ['\n'] |>.flatten

structure HarnessNode where
  nodeId : Str
  parentId : Option Str
  gitCommitSha : Str
  gitBranch : Str
  createdAt : Str
  createdAtIter : Int
  coreVersion : Str
  patch : Option AppliedPatch
  deriving DecidableEq

end Evolver
end CodeCub

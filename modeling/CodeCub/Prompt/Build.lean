import CodeCub.Prompt.Reduction
import CodeCub.Prompt.Sections
import Mathlib.Algebra.Ring.Int.Defs

/-!
# The prompt of a turn

`ContextManager.build` of `codecub/context_manager.py`: five sections, the request of the
user last and never clipped, and budgets for the others that are reduced until the prompt
fits.
-/

namespace CodeCub
namespace Prompt

open Python

/-- What the context manager reads of the agent, its feature flags included.  A flag that the
agent does not know counts as on for an agent without flags. -/
structure Agent where
  prefixText : Str
  memoryText : Str := []
  checkpointText : Str := []
  /-- The texts of `retrieval_candidates`. -/
  retrievalCandidates : Str → List Str := fun _ => []
  history : List HistoryItem := []
  fileSummary : Str → Str := fun _ => []
  memory : Bool := true
  relevantMemory : Bool := true
  contextReduction : Bool := true
  counter : Option Counter := none
  contextWindow : Option Int := none
  maxNewTokens : Int := 0
  safetyMarginTokens : Int := 0

structure ContextManager where
  totalBudget : Int
  sectionBudgets : Budgets
  floorOverrides : Budgets
  reductionOrder : List String

def defaultSectionBudgets : Budgets :=
  [("prefix", 3600), ("memory", 1600), ("relevant_memory", 1200), ("history", 5200)]

def defaultReductionOrder : List String := ["relevant_memory", "history", "memory", "prefix"]

/-- `dict.update`. -/
def update (budgets changes : Budgets) : Budgets :=
  changes.foldl (fun d change => assign change.1 change.2 d) budgets

/-- The constructor; an empty order is the default one. -/
def ContextManager.new (totalBudget : Int) (sectionBudgets sectionFloors : Budgets)
    (reductionOrder : List String) : ContextManager :=
  { totalBudget := totalBudget
    sectionBudgets := update defaultSectionBudgets sectionBudgets
    floorOverrides := update [] sectionFloors
    reductionOrder := if reductionOrder = [] then defaultReductionOrder else reductionOrder }

structure Rendered where
  prefixSection : SectionRender
  memory : SectionRender
  relevantMemory : SectionRender
  history : SectionRender
  currentRequest : SectionRender

/-- The texts of the sections before they are rendered. -/
structure SectionTexts where
  prefixText : Str
  memory : Str
  currentRequest : Str

/-- What `build` returns of the budgets beside the prompt. -/
structure Built where
  prompt : Str
  budgets : Budgets
  reductions : List Reduction

def requestText (userMessage : Str) : Str := "Current user request:\n".toList ++ userMessage

def Agent.sectionTexts (agent : Agent) (userMessage : Str) : SectionTexts :=
  let checkpoint := stripList isSpace agent.checkpointText
  { prefixText :=
      if checkpoint = [] then agent.prefixText
      else checkpoint ++ ("\n\n".toList ++ agent.prefixText)
    memory := if agent.memory then agent.memoryText else "Memory:\n- disabled".toList
    currentRequest := requestText userMessage }

def Agent.selectedNotes (agent : Agent) (userMessage : Str) : List Str :=
  if agent.memory ∧ agent.relevantMemory then agent.retrievalCandidates userMessage else []

/-- `_assemble_prompt`. -/
def assemblePrompt (r : Rendered) : Str :=
  stripList isSpace ("\n\n".toList.intercalate
    [r.prefixSection.rendered, r.memory.rendered, r.relevantMemory.rendered, r.history.rendered,
      r.currentRequest.rendered])

def unclipped (text : Str) (budget : Int) : SectionRender := ⟨text, budget, text⟩

def renderClipped (counter : Option Counter) (text : Str) (budget : Option Int) : SectionRender :=
  match budget with
  | some budget => ⟨text, budget, clip counter text budget⟩
  | none => unclipped text 0

/-- `_render_sections`. -/
def renderSections (agent : Agent) (texts : SectionTexts) (notes : List Str) (budgets : Budgets) :
    Rendered :=
  { prefixSection := renderClipped agent.counter texts.prefixText (budgets.lookup "prefix")
    memory := renderClipped agent.counter texts.memory (budgets.lookup "memory")
    relevantMemory := renderRelevantMemory agent.counter notes (budgets.of "relevant_memory")
    history := renderHistorySection agent.counter agent.fileSummary agent.history
      (budgets.of "history")
    currentRequest := unclipped texts.currentRequest 0 }

/-- `_render_sections_without_reduction`. -/
def renderSectionsWithoutReduction (agent : Agent) (texts : SectionTexts) (notes : List Str) :
    Rendered :=
  let relevant := if notes = [] then joinLines [relevantHeader, "- none".toList]
    else relevantText notes
  let history := rawHistoryText agent.history
  { prefixSection := unclipped texts.prefixText texts.prefixText.length
    memory := unclipped texts.memory texts.memory.length
    relevantMemory := unclipped relevant relevant.length
    history := unclipped history history.length
    currentRequest := unclipped texts.currentRequest 0 }

def Rendered.budgets (r : Rendered) : Budgets :=
  [("prefix", r.prefixSection.budget), ("memory", r.memory.budget),
    ("relevant_memory", r.relevantMemory.budget), ("history", r.history.budget)]

namespace ContextManager

/-- `int(value * total / section_total)`, a quotient of floating point. -/
abbrev Scale := Int → Int → Int → Int

variable (scale : Scale) (manager : ContextManager) (agent : Agent) (userMessage : Str)

/-- `_compute_section_floors`. -/
def sectionFloors : Budgets :=
  update (manager.sectionBudgets.map fun entry => (entry.1, max 20 (entry.2 / 4)))
    manager.floorOverrides

/-- `_fit_section_budgets`. -/
def fitSectionBudgets (budgets : Budgets) (total : Int) : Budgets :=
  let sectionTotal := (budgets.map Prod.snd).sum
  if sectionTotal ≤ total then budgets
  else budgets.map fun entry => (entry.1, max 1 (scale entry.2 total sectionTotal))

/-- The bound in tokens, where there is a counter and a window. -/
def tokenBudget : Option Int :=
  match agent.counter with
  | some _ => resolvePromptBudget agent.contextWindow agent.maxNewTokens agent.safetyMarginTokens
  | none => none

def total : Int := (tokenBudget agent).getD manager.totalBudget

/-- The budgets that the reduction starts from. -/
def startBudgets : Budgets :=
  match tokenBudget agent with
  | some total => fitSectionBudgets scale manager.sectionBudgets total
  | none => manager.sectionBudgets

def promptWith (budgets : Budgets) : Str :=
  assemblePrompt (renderSections agent (agent.sectionTexts userMessage)
    (agent.selectedNotes userMessage) budgets)

/-- What the prompt with these budgets measures beyond the bound. -/
def surplus (budgets : Budgets) : Int :=
  measure agent.counter (promptWith agent userMessage budgets) - manager.total agent

def build : Built :=
  if agent.contextReduction then
    let ended := reduce manager.reductionOrder manager.sectionFloors
      (manager.surplus agent userMessage) (manager.startBudgets scale agent)
    { prompt := promptWith agent userMessage ended.1, budgets := ended.1, reductions := ended.2 }
  else
    let rendered := renderSectionsWithoutReduction agent (agent.sectionTexts userMessage)
      (agent.selectedNotes userMessage)
    { prompt := assemblePrompt rendered, budgets := rendered.budgets, reductions := [] }

end ContextManager

/-! ## The request is never clipped -/

/-- The request of the user is in the prompt, but for blanks around it. -/
theorem request_infix_assemblePrompt {r : Rendered} {userMessage : Str}
    (h : r.currentRequest.rendered = requestText userMessage) :
    stripList isSpace userMessage <:+: assemblePrompt r := by
  have hsection : userMessage <:+: r.currentRequest.rendered := by
    rw [h]
    exact (List.suffix_append _ _).isInfix
  have hjoined : userMessage <:+: "\n\n".toList.intercalate
      [r.prefixSection.rendered, r.memory.rendered, r.relevantMemory.rendered, r.history.rendered,
        r.currentRequest.rendered] :=
    hsection.trans (infix_intercalate (by simp))
  exact infix_stripList (stripList_stripList isSpace userMessage)
    ((isInfix_stripList isSpace userMessage).trans hjoined)

/-! ## How the reduction ends -/

namespace ContextManager

variable (scale : Scale) (manager : ContextManager) (agent : Agent) (userMessage : Str)

theorem request_infix_build :
    stripList isSpace userMessage <:+: (manager.build scale agent userMessage).prompt := by
  unfold build
  split
  · exact request_infix_assemblePrompt rfl
  · exact request_infix_assemblePrompt rfl

theorem fits_of_surplus {budgets : Budgets} (h : manager.surplus agent userMessage budgets ≤ 0) :
    measure agent.counter (promptWith agent userMessage budgets) ≤ manager.total agent := by
  unfold surplus at h
  omega

/-- The prompt holds the request.  With the reduction on, it fits or every section of the order
is at its floor, after at most as many steps as the sections had above their floors, and
between any two moments the budgets shrink, none of them below its floor. -/
theorem build_reduces :
    stripList isSpace userMessage <:+: (manager.build scale agent userMessage).prompt ∧
    (agent.contextReduction = true →
      (measure agent.counter (manager.build scale agent userMessage).prompt ≤ manager.total agent ∨
        ∀ name ∈ manager.reductionOrder,
          (manager.build scale agent userMessage).budgets.of name ≤ manager.sectionFloors.of name) ∧
      (manager.build scale agent userMessage).reductions.length ≤
        excess manager.reductionOrder manager.sectionFloors (manager.startBudgets scale agent) ∧
      (manager.build scale agent userMessage).budgets =
        replay (manager.startBudgets scale agent)
          (manager.build scale agent userMessage).reductions ∧
      ∀ earlier between later : List Reduction,
        (manager.build scale agent userMessage).reductions = earlier ++ between ++ later →
        Shrinks manager.sectionFloors (replay (manager.startBudgets scale agent) earlier)
          (replay (manager.startBudgets scale agent) (earlier ++ between))) := by
  refine ⟨request_infix_build scale manager agent userMessage, fun henabled => ?_⟩
  obtain ⟨hlogged, hreplay⟩ := reduce_logged manager.reductionOrder manager.sectionFloors
    (manager.surplus agent userMessage) (manager.startBudgets scale agent)
  have hends := reduce_ends manager.reductionOrder manager.sectionFloors
    (manager.surplus agent userMessage) (manager.startBudgets scale agent)
  have hlength := length_reduce_le manager.reductionOrder manager.sectionFloors
    (manager.surplus agent userMessage) (manager.startBudgets scale agent)
  unfold build
  rw [if_pos henabled]
  refine ⟨hends.imp_left fun hfits => ?_, hlength, hreplay, fun earlier between later hlog => ?_⟩
  · exact fits_of_surplus manager agent userMessage hfits
  · have hsplit : (reduce manager.reductionOrder manager.sectionFloors
        (manager.surplus agent userMessage) (manager.startBudgets scale agent)).2 =
          earlier ++ between ++ later := hlog
    rw [hsplit] at hlogged
    exact hlogged.shrinks_between

end ContextManager

/-! ## Without the reduction -/

def unreduced : Agent := { prefixText := List.replicate 2000 'x', contextReduction := false }

def narrow : ContextManager := ContextManager.new 100 [] [] []

/-- With the feature off the prompt may be too long and its sections above their floors. -/
theorem unreduced_over_budget :
    ¬ (measure unreduced.counter (narrow.build (fun _ _ _ => 0) unreduced []).prompt ≤
        narrow.total unreduced ∨
      ∀ name ∈ narrow.reductionOrder,
        (narrow.build (fun _ _ _ => 0) unreduced []).budgets.of name ≤
          narrow.sectionFloors.of name) := by
  decide +kernel

end Prompt
end CodeCub

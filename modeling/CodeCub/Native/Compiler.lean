import Mathlib.Data.List.Perm.Basic
import Mathlib.Data.Rat.Floor
import CodeCub.Native.Messages

/-!
# The native context compiler

`compile_native` lays a transcript out for the provider: one system preamble, the
raw evidence and the recent groups verbatim, and a condensation of the older
groups inside the preamble.  Below the high watermark every group is recent; above
it the groups are cut into recent and older.  Either way a final loop trims groups
until the list fits the usable budget.

Token counting (of a message's JSON text), the score and signature of an evidence
group, the span fingerprint, the condenser's text and the repository map come from
collaborators and are parameters of `Compiler`.
-/

namespace CodeCub
namespace Native

open Python

/-! ## Budget and hysteresis -/

structure ContextBudget where
  usableInputBudget : Nat
  highWatermark : ℚ := 4 / 5
  minNewHistoryEntries : Nat := 4

/-- What the last counted compression of the native pipeline left behind. -/
structure Hysteresis where
  lastCompressedHistoryLen : Nat := 0
  lastCompressedSpanFingerprint : String := ""
  deriving DecidableEq, Repr

namespace ContextBudget

def utilization (budget : ContextBudget) (estimatedTokens : Nat) : ℚ :=
  if budget.usableInputBudget = 0 then 1 else estimatedTokens / budget.usableInputBudget

def overHigh (budget : ContextBudget) (estimatedTokens : Nat) : Bool :=
  budget.highWatermark ≤ budget.utilization estimatedTokens

/-- Compress above the watermark, unless too little was added since the last
counted compression or the span to compress is the same. -/
def shouldCompress (budget : ContextBudget) (state : Hysteresis)
    (estimatedTokens historyLen : Nat) (historyFingerprint : String) : Bool :=
  if budget.utilization estimatedTokens < budget.highWatermark then
    false
  else if state.lastCompressedHistoryLen = 0 then
    true
  else if historyLen - state.lastCompressedHistoryLen < budget.minNewHistoryEntries then
    false
  else if historyFingerprint ≠ "" ∧ state.lastCompressedSpanFingerprint ≠ "" ∧
      historyFingerprint = state.lastCompressedSpanFingerprint then
    false
  else
    true

theorem overHigh_of_shouldCompress {budget : ContextBudget} {state : Hysteresis}
    {estimatedTokens historyLen : Nat} {historyFingerprint : String}
    (h : budget.shouldCompress state estimatedTokens historyLen historyFingerprint = true) :
    budget.overHigh estimatedTokens = true := by
  unfold shouldCompress at h
  split at h
  · cases h
  · rename_i hlow
    simpa [overHigh] using not_lt.mp hlow

end ContextBudget

/-! ## Layers -/

/-- The working state: its goal and the detail lines of its rendering. -/
structure WorkingState where
  goal : String := ""
  details : List String := []
  deriving DecidableEq, Repr

def WorkingState.toText (state : WorkingState) : String :=
  "\n".intercalate ("Working State:" ::
    ((if state.goal = "" then [] else
      ["- Goal: " ++ String.ofList (state.goal.toList.take 300)]) ++ state.details))

/-- One entry of the condenser's input. -/
structure RawItem where
  role : Role
  name : String
  args : String
  content : String
  deriving DecidableEq, Repr

/-- The history condenser.  The deterministic one starts with a fixed title or
falls back to a fixed text, the model-backed one refuses an empty answer. -/
structure Condenser where
  condense : List RawItem → WorkingState → String
  nonblank : ∀ items state, strip (condense items state) ≠ ""

def pinnedUserTask : String := "pinned:user-task"

/-- `items[key] = text` on an ordered dictionary. -/
def setItem (items : List (String × String)) (key text : String) : List (String × String) :=
  if items.any (fun item => item.1 == key) then
    items.map fun item => if item.1 == key then (key, text) else item
  else
    items ++ [(key, text)]

/-- The pinned texts; the user's task is one of them only on request. -/
def buildPinned (userMessage : String) (pinnedExtra : List (String × String))
    (includeUserTask : Bool) : List String :=
  let start := if includeUserTask then
      [(pinnedUserTask, "User task: " ++ strip userMessage)]
    else []
  (pinnedExtra.foldl (fun items entry =>
    if strip entry.2 = "" then items else setItem items entry.1 (strip entry.2)) start).map (·.2)

/-- What the caller hands to one compilation besides the transcript. -/
structure Layers where
  userMessage : String
  workingState : WorkingState := {}
  pinnedExtra : List (String × String) := []
  memoryLayer : String := ""

/-- The parts of the preamble that stay fixed during one compilation, and the
identity of the dictionary that will hold it. -/
structure Frame where
  pinned : List String
  workingState : WorkingState
  memoryLayer : String
  repoMap : List String
  ref : Nat

structure Compiler where
  budget : ContextBudget
  tokens : Message → Nat
  recentVerbatim : ℚ := 19 / 50
  recentFloorGroups : Nat := 2
  hybridContextEnabled : Bool := false
  historySpanFingerprint : List Message → String
  signature : Group → String
  scoreRawEvidence : Group → String → WorkingState → Nat × Bool
  condenser : Condenser
  buildRepoMap : String → WorkingState → List String

namespace Compiler

variable (c : Compiler)

def estimateNativeTokens (messages : List Message) : Nat := (messages.map c.tokens).sum

def estimateNativeGroupTokens (group : Group) : Nat := c.estimateNativeTokens group.messages

/-! ## Condensing the older groups -/

/-- The condenser sees a group's message and, call by call, the first 400
characters of its results. -/
def rawItems (group : Group) : List RawItem :=
  ⟨group.message.role, "", "", group.message.content.getD "None"⟩ ::
    (group.message.toolCalls.zip group.results).map fun pair =>
      ⟨.tool, pair.1.name, pair.1.arguments,
        String.ofList ((pair.2.content.getD "None").toList.take 400)⟩

def compressOlderGroups (olderGroups : List Group) (state : WorkingState) : List String :=
  if olderGroups.isEmpty then [] else [c.condenser.condense (olderGroups.flatMap rawItems) state]

/-! ## Rendering -/

def preambleParts (frame : Frame) (summaries : List String) : List String :=
  [("\n".intercalate frame.pinned)].filter (· ≠ "") ++
    [frame.workingState.toText].filter (strip · ≠ "") ++
    [strip frame.memoryLayer].filter (· ≠ "") ++
    [("\n\n".intercalate summaries)].filter (strip · ≠ "") ++
    (if frame.repoMap.isEmpty then [] else
      ["Repository map:\n" ++ "\n".intercalate frame.repoMap])

def preamble (frame : Frame) (summaries : List String) : Message :=
  { ref := frame.ref, role := .system,
    content := some ("\n\n".intercalate (preambleParts frame summaries)) }

/-- Render exactly the native message fields that will be provider-bound. -/
def assembleNativeMessages (frame : Frame) (summaries : List String)
    (rawEvidence recent : List Group) : List Message :=
  (if (preambleParts frame summaries).isEmpty then [] else [preamble frame summaries]) ++
    (rawEvidence ++ recent).flatMap Group.messages

/-! ## Recent and older groups -/

def recentBudget : Nat := ⌊(c.budget.usableInputBudget : ℚ) * c.recentVerbatim⌋.toNat

/-- Take further groups, newest first, while they fit the recent layer. -/
def absorb (used : Nat) : List Group → List Group × List Group
  | [] => ([], [])
  | group :: rest =>
      if used + c.estimateNativeGroupTokens group ≤ c.recentBudget then
        let more := absorb (used + c.estimateNativeGroupTokens group) rest
        (group :: more.1, more.2)
      else
        ([], group :: rest)

/-- `(recent, older)`.  The floor loop appends a group before it compares, so that
it keeps the newest group even with a floor of zero. -/
def partitionNativeGroups (groups : List Group) : List Group × List Group :=
  let newest := groups.reverse.take (max 1 c.recentFloorGroups)
  let used := (newest.map c.estimateNativeGroupTokens).sum
  let more := c.absorb used (groups.reverse.drop (max 1 c.recentFloorGroups))
  ((newest ++ more.1).reverse, more.2.reverse)

/-! ## Raw evidence -/

structure Descriptor where
  entry : Group
  index : Nat
  signature : String
  score : Nat
  stale : Bool
  cost : Nat

def evidenceDescriptors (olderGroups : List Group) (layers : Layers) : List Descriptor :=
  olderGroups.zipIdx.map fun (group, index) =>
    let scored := c.scoreRawEvidence group layers.userMessage layers.workingState
    { entry := group, index := index, signature := c.signature group,
      score := scored.1, stale := scored.2, cost := c.estimateNativeGroupTokens group }

/-- The latest of its signature, fresh, and scored above zero. -/
def isCandidate (descriptors : List Descriptor) (d : Descriptor) : Bool :=
  !(descriptors.any fun e => e.signature == d.signature && decide (d.index < e.index)) &&
    !d.stale && decide (0 < d.score)

/-- Best score first, newest first within a score. -/
def reclaimBefore (a b : Descriptor) : Bool :=
  decide (b.score < a.score) || (a.score == b.score && decide (b.index ≤ a.index))

def indexBefore (a b : Descriptor) : Bool := decide (a.index ≤ b.index)

def safeRawReclaimLimit (baselineTokens : Nat) : Nat :=
  ⌊(c.budget.usableInputBudget : ℚ) * c.budget.highWatermark⌋.toNat - baselineTokens

/-- `(selected, rejected)` within the reclaim limit. -/
def reclaim (limit used : Nat) : List Descriptor → List Descriptor × List Descriptor
  | [] => ([], [])
  | d :: rest =>
      if used + d.cost ≤ limit then
        let more := reclaim limit (used + d.cost) rest
        (d :: more.1, more.2)
      else
        let more := reclaim limit used rest
        (more.1, d :: more.2)

/-- `(raw evidence, remainder)`, both in transcript order. -/
def selectNativeRawEvidence (olderGroups : List Group) (layers : Layers)
    (baselineTokens : Nat) : List Group × List Group :=
  if c.hybridContextEnabled then
    let descriptors := c.evidenceDescriptors olderGroups layers
    let candidates := descriptors.filter (isCandidate descriptors)
    let others := descriptors.filter fun d => !(isCandidate descriptors d)
    let split := reclaim (c.safeRawReclaimLimit baselineTokens) 0
      (candidates.mergeSort reclaimBefore)
    ((split.1.mergeSort indexBefore).map fun d => { d.entry with hybridScore := d.score },
      ((others ++ split.2).mergeSort indexBefore).map Descriptor.entry)
  else
    ([], olderGroups)

/-! ## The final budget -/

/-- `condensed` are the groups whose summary the messages render. -/
structure Layout where
  messages : List Message
  raw : List Group
  recent : List Group
  older : List Group
  condensed : List Group

def evictBefore (a b : Group) : Bool :=
  decide (a.hybridScore < b.hybridScore) ||
    (a.hybridScore == b.hybridScore && decide (a.index < b.index))

def leastFrom (best : Nat) (least : Group) (index : Nat) : List Group → Nat
  | [] => best
  | group :: rest =>
      if evictBefore group least then leastFrom index group (index + 1) rest
      else leastFrom best least (index + 1) rest

/-- The position of the first group of least score and index. -/
def leastIndex : List Group → Nat
  | [] => 0
  | group :: rest => leastFrom 0 group 1 rest

def removable (group : Group) : Bool :=
  group.message.role != .system && group.message.role != .user

/-- The group the budget loop gives up next: the worst raw evidence, and once there
is none the oldest recent group that is neither system nor user. -/
def trim (raw recent : List Group) : Option (Group × List Group × List Group) :=
  match raw[leastIndex raw]? with
  | some group => some (group, raw.eraseIdx (leastIndex raw), recent)
  | none =>
      match recent[recent.findIdx removable]? with
      | some group => some (group, raw, recent.eraseIdx (recent.findIdx removable))
      | none => none

/-- Give `group` back to the condenser and render again. -/
def trimmed (frame : Frame) (layout : Layout) (group : Group) (raw recent : List Group) :
    Layout :=
  let older := group :: layout.older
  { messages := assembleNativeMessages frame (c.compressOlderGroups older frame.workingState)
      raw recent
    raw := raw, recent := recent, older := older, condensed := older }

theorem trim_perm {raw recent raw' recent' : List Group} {group : Group}
    (h : trim raw recent = some (group, raw', recent')) :
    (group :: (raw' ++ recent')).Perm (raw ++ recent) := by
  unfold trim at h
  split at h
  · rename_i hget
    cases h
    obtain ⟨hlt, rfl⟩ := List.getElem?_eq_some_iff.mp hget
    exact (List.getElem_cons_eraseIdx_perm hlt).append_right recent
  · split at h
    · rename_i hget
      cases h
      obtain ⟨hlt, rfl⟩ := List.getElem?_eq_some_iff.mp hget
      exact List.perm_middle.symm.trans
        ((List.getElem_cons_eraseIdx_perm hlt).append_left _)
    · cases h

theorem trim_length {raw recent raw' recent' : List Group} {group : Group}
    (h : trim raw recent = some (group, raw', recent')) :
    raw'.length + recent'.length < raw.length + recent.length := by
  have := (trim_perm h).length_eq
  simp only [List.length_cons, List.length_append] at this
  omega

/-- Final provider-bound invariant; trim oldest mutable atomic groups first. -/
def enforceNativeBudget (frame : Frame) (layout : Layout) : Layout :=
  if c.budget.usableInputBudget < c.estimateNativeTokens layout.messages then
    match h : trim layout.raw layout.recent with
    | none => layout
    | some (group, raw, recent) =>
        have := trim_length h
        enforceNativeBudget frame (c.trimmed frame layout group raw recent)
  else
    layout
termination_by layout.raw.length + layout.recent.length

/-! ## Compilation -/

def frameOf (layers : Layers) (includeContext : Bool) (ref : Nat) : Frame :=
  { pinned := buildPinned layers.userMessage layers.pinnedExtra (!includeContext)
    workingState := layers.workingState
    memoryLayer := layers.memoryLayer
    repoMap := c.buildRepoMap layers.userMessage layers.workingState
    ref := ref }

/-- Put the protocol seed before the preamble when it comes right after it. -/
def seedFirst (history messages : List Message) : List Message :=
  match history, messages with
  | seed :: _, first :: second :: rest =>
      if seed.role = .system ∧ second.ref = seed.ref then second :: first :: rest else messages
  | _, _ => messages

/-- Below the watermark and without the preamble: the transcript as it is. -/
def layoutVerbatim (history : List Message) : Layout :=
  { messages := history, raw := [], recent := groupNativeMessages history,
    older := [], condensed := [] }

/-- Below the watermark: every group stays recent. -/
def layoutAll (frame : Frame) (history : List Message) : Layout :=
  let groups := groupNativeMessages history
  { messages := seedFirst history (assembleNativeMessages frame [] [] groups)
    raw := [], recent := groups, older := [], condensed := [] }

/-- Above the watermark.  Without raw evidence the preliminary condensation is the
one rendered. -/
def layoutCompressed (layers : Layers) (frame : Frame) (history : List Message) : Layout :=
  let parts := c.partitionNativeGroups (groupNativeMessages history)
  let preliminary := c.compressOlderGroups parts.2 layers.workingState
  let reclaimBaseline := c.estimateNativeTokens
    (assembleNativeMessages { frame with repoMap := [] } preliminary [] parts.1)
  let evidence := c.selectNativeRawEvidence parts.2 layers reclaimBaseline
  let condensed := if evidence.1.isEmpty then parts.2 else evidence.2
  { messages := assembleNativeMessages frame
      (c.compressOlderGroups condensed layers.workingState) evidence.1 parts.1
    raw := evidence.1, recent := parts.1, older := evidence.2, condensed := condensed }

def overHigh (history : List Message) : Bool :=
  c.budget.overHigh (c.estimateNativeTokens history)

structure Compiled where
  layout : Layout
  counted : Bool
  hysteresis : Hysteresis

/-- `compile_native`.  A counted compression is registered with the budget; it
changes no message. -/
def compileNative (state : Hysteresis) (layers : Layers) (includeContext : Bool) (ref : Nat)
    (history : List Message) : Compiled :=
  let estimated := c.estimateNativeTokens history
  let fingerprint := c.historySpanFingerprint history
  let should := c.budget.shouldCompress state estimated history.length fingerprint
  let frame := c.frameOf layers includeContext ref
  if !should && !c.overHigh history && !includeContext then
    { layout := layoutVerbatim history, counted := false, hysteresis := state }
  else if includeContext && !should && !c.overHigh history then
    { layout := c.enforceNativeBudget frame (layoutAll frame history)
      counted := false, hysteresis := state }
  else
    { layout := c.enforceNativeBudget frame (c.layoutCompressed layers frame history)
      counted := should
      hysteresis := if should then ⟨history.length, fingerprint⟩ else state }

end Compiler

end Native
end CodeCub

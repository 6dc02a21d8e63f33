import CodeCub.Agent.TaskPolicy
import CodeCub.Python.OrderedDict
import CodeCub.Python.Json
import Mathlib.Data.List.Dedup
import Mathlib.Data.List.Lex
import Mathlib.Data.List.MinMax
import Mathlib.Data.List.Sort
import Mathlib.Data.Prod.Lex

/-!
# Instructions

`codecub/instructions.py`: the resolver drops the repeated instructions, and in every
group of one conflict key with two polarities it keeps the strongest.
-/

namespace CodeCub
namespace Agent

open Python

/-- Precedence from strongest to weakest. -/
inductive InstructionLayer where
  | runtimeSafety
  | protectedRuntime
  | repository
  | agent
  | tool
  | user
  | task
  deriving DecidableEq

inductive InstructionScope where
  | global
  | repository
  | agentRole
  | tool
  | turn
  | run
  deriving DecidableEq

def InstructionLayer.value : InstructionLayer → Str
  | .runtimeSafety => "runtime_safety".toList
  | .protectedRuntime => "protected_runtime".toList
  | .repository => "repository".toList
  | .agent => "agent".toList
  | .tool => "tool".toList
  | .user => "user".toList
  | .task => "task".toList

def InstructionLayer.precedence : InstructionLayer → Nat
  | .runtimeSafety => 600
  | .protectedRuntime => 500
  | .repository => 400
  | .agent => 300
  | .tool => 250
  | .user => 200
  | .task => 100

def InstructionScope.value : InstructionScope → Str
  | .global => "global".toList
  | .repository => "repository".toList
  | .agentRole => "agent-role".toList
  | .tool => "tool".toList
  | .turn => "turn".toList
  | .run => "run".toList

/-- A metadata value as it is read: whether it is true, its `str()`, and its `int()` where
that does not raise. -/
structure MetadataValue where
  truth : Bool
  text : Str
  number : Option Int
  deriving DecidableEq

/-- One model-visible instruction with non-rendered provenance. -/
structure Instruction where
  id : Str
  content : Str
  source : Str
  layer : InstructionLayer
  scope : InstructionScope
  scopeId : Str
  guarded : Bool
  conflictKey : Str
  polarity : Str
  metadata : List (Str × MetadataValue)
  /-- `__post_init__` refuses an empty content. -/
  nonempty : content ≠ []
  /-- Every instruction of the protected layer is protected. -/
  protectedLayer : layer = .protectedRuntime → guarded = true
  deriving DecidableEq

section Resolver

-- `str.casefold`
variable (casefold : Str → Str)

def normalizedContent (value : Str) : Str := casefold (collapseSpaces false (stripList isSpace value))

def Instruction.repositoryScope (item : Instruction) : Str :=
  if item.layer = .repository then
    casefold (stripList isSpace (((item.metadata.lookup "scope_path".toList).map
      MetadataValue.text).getD []))
  else []

def Instruction.dedupKey (item : Instruction) :
    Str × Str × Str × Str × Str × Str × Bool × Str × Str :=
  (normalizedContent casefold item.content, item.source, item.layer.value, item.scope.value,
    item.scopeId, item.repositoryScope casefold, item.guarded, item.conflictKey, item.polarity)

/-- `metadata.get(key, default) or default`: the value, where there is a true one. -/
def Instruction.given (item : Instruction) (key : String) : Option MetadataValue :=
  (item.metadata.lookup key.toList).filter MetadataValue.truth

/-- `_repository_specificity`. -/
def Instruction.specificity (item : Instruction) : Nat × Str :=
  if item.layer = .repository then
    let depth := ((item.given "specificity_depth").map MetadataValue.number).getD (some 0)
    let path := ((item.given "scope_path").map MetadataValue.text).getD []
    (((depth.getD 0).toNat), casefold (stripList isSpace path))
  else (0, [])

/-- `_winner_key`. -/
def winnerKey (item : Instruction) : ℕ ×ₗ ℕ ×ₗ ℕ ×ₗ Str ×ₗ Str ×ₗ Str ×ₗ Str ×ₗ Str :=
  let specificity := item.specificity casefold
  toLex (item.layer.precedence, toLex (item.guarded.toNat, toLex (specificity.1,
    toLex (specificity.2, toLex (item.source, toLex (item.scope.value,
      toLex (item.scopeId, item.id)))))))

/-- `_sort_key`. -/
def sortKey (item : Instruction) :
    ℤ ×ₗ ℤ ×ₗ ℕ ×ₗ Str ×ₗ Str ×ₗ Str ×ₗ Str ×ₗ Str ×ₗ Str ×ₗ Str ×ₗ Str :=
  let specificity := item.specificity casefold
  toLex (-item.layer.precedence, toLex (-item.guarded.toNat, toLex (specificity.1,
    toLex (specificity.2, toLex (item.layer.value, toLex (item.source, toLex (item.scope.value,
      toLex (item.scopeId, toLex (item.conflictKey, toLex (item.polarity, item.id))))))))))

/-- The scopes that one request activates. -/
structure ScopeRequest where
  agentRole : Str := []
  repositoryId : Str := []
  turnId : Str := []
  runId : Str := []
  toolName : Str := []
  activeScopes : Option (List Str) := none

def ScopeRequest.expected (request : ScopeRequest) : InstructionScope → Str
  | .global => []
  | .repository => request.repositoryId
  | .agentRole => request.agentRole
  | .tool => request.toolName
  | .turn => request.turnId
  | .run => request.runId

/-- `_scope_active`. -/
def scopeActive (request : ScopeRequest) (item : Instruction) : Bool :=
  if request.activeScopes.any (fun allowed => item.scope.value ∉ allowed) ∧ item.scope ≠ .global
  then false
  else item.scopeId = [] || stripList isSpace (request.expected item.scope) = item.scopeId

structure InstructionConflict where
  key : Str
  winnerId : Str
  loserId : Str
  winnerLayer : Str
  loserLayer : Str
  deriving DecidableEq

structure ResolvedInstructions where
  instructions : List Instruction
  deduplicatedCount : Nat
  shadowed : List Instruction
  conflicts : List InstructionConflict
  inputCount : Nat
  activeCount : Nat

/-- The first of the instructions with one key, and how many were dropped. -/
def dedupe (seen : List (Str × Str × Str × Str × Str × Str × Bool × Str × Str)) :
    List Instruction → List Instruction × Nat
  | [] => ([], 0)
  | item :: items =>
      let key := item.dedupKey casefold
      if key ∈ seen then
        let (deduped, count) := dedupe seen items
        (deduped, count + 1)
      else
        let (deduped, count) := dedupe (key :: seen) items
        (item :: deduped, count)

/-- `by_conflict`: the candidates of each conflict key. -/
def byConflict (items : List Instruction) : OrderedDict Str (List Instruction) :=
  items.foldl (fun groups item =>
    if item.conflictKey = [] ∨ item.polarity = [] then groups
    else groups.set item.conflictKey ((groups.get item.conflictKey).getD [] ++ [item])) ∅

/-- What the loop over the groups changes. -/
structure Contest where
  winners : List Instruction
  shadowed : List Instruction := []
  conflicts : List InstructionConflict := []

def conflictRecord (key : Str) (winner item : Instruction) : InstructionConflict where
  key := key
  winnerId := winner.id
  loserId := item.id
  winnerLayer := winner.layer.value
  loserLayer := item.layer.value

/-- The inner loop: the candidates lose against the winner of their group. -/
def shadow (key : Str) (winner : Instruction) (s : Contest) (item : Instruction) : Contest :=
  if item.id = winner.id then s
  else
    -- `erase` leaves the list as it is when the item is not there.
    { winners := s.winners.erase item
      shadowed := s.shadowed ++ [item]
      conflicts := s.conflicts ++ [conflictRecord key winner item] }

def contest (s : Contest) (group : Str × List Instruction) : Contest :=
  if (group.2.map Instruction.polarity).dedup.length < 2 then s
  else
    match group.2.argmax (winnerKey casefold) with
    | none => s
    | some winner => group.2.foldl (shadow group.1 winner) s

/-- `conflicts.sort(key=...)`. -/
def conflictKey (conflict : InstructionConflict) : Str ×ₗ Str ×ₗ Str :=
  toLex (conflict.key, toLex (conflict.winnerId, conflict.loserId))

def active (request : ScopeRequest) (values : List (Option Instruction)) : List Instruction :=
  (values.filterMap id).filter (scopeActive request)

/-- `resolve`.  A value that is no instruction is `none`. -/
def resolve (request : ScopeRequest) (values : List (Option Instruction)) : ResolvedInstructions :=
  let deduped := dedupe casefold [] (active request values)
  let final := (byConflict deduped.1).entries.foldl (contest casefold) { winners := deduped.1 }
  { instructions := final.winners.insertionSort fun a b => sortKey casefold a ≤ sortKey casefold b
    deduplicatedCount := deduped.2
    shadowed := final.shadowed.insertionSort fun a b => sortKey casefold a ≤ sortKey casefold b
    conflicts := final.conflicts.insertionSort fun a b => conflictKey a ≤ conflictKey b
    inputCount := values.length
    activeCount := (active request values).length }

/-! ## Repeated instructions -/

theorem dedupe_cons (seen : List (Str × Str × Str × Str × Str × Str × Bool × Str × Str))
    (item : Instruction) (items : List Instruction) :
    dedupe casefold seen (item :: items) =
      if item.dedupKey casefold ∈ seen then
        ((dedupe casefold seen items).1, (dedupe casefold seen items).2 + 1)
      else
        (item :: (dedupe casefold (item.dedupKey casefold :: seen) items).1,
          (dedupe casefold (item.dedupKey casefold :: seen) items).2) := rfl

/-- What is kept keeps its order, and what is dropped is counted. -/
theorem dedupe_spec (items : List Instruction)
    (seen : List (Str × Str × Str × Str × Str × Str × Bool × Str × Str)) :
    (dedupe casefold seen items).1.Sublist items ∧
      items.length = (dedupe casefold seen items).1.length + (dedupe casefold seen items).2 := by
  induction items generalizing seen with
  | nil => exact ⟨List.nil_sublist _, rfl⟩
  | cons item items ih =>
      rw [dedupe_cons]
      split
      · obtain ⟨hsub, hlength⟩ := ih seen
        refine ⟨hsub.cons item, ?_⟩
        rw [List.length_cons, hlength]
        rfl
      · obtain ⟨hsub, hlength⟩ := ih (item.dedupKey casefold :: seen)
        refine ⟨hsub.cons_cons item, ?_⟩
        rw [List.length_cons, List.length_cons, hlength]
        omega

/-! ## Groups -/

omit casefold in
/-- The candidates of a conflict key. -/
def conflictGroup (items : List Instruction) (key : Str) : List Instruction :=
  items.filter fun item => item.conflictKey = key ∧ item.conflictKey ≠ [] ∧ item.polarity ≠ []

end Resolver

theorem mem_conflictGroup {items : List Instruction} {key : Str} {item : Instruction} :
    item ∈ conflictGroup items key ↔
      item ∈ items ∧ item.conflictKey = key ∧ item.conflictKey ≠ [] ∧ item.polarity ≠ [] := by
  rw [conflictGroup, List.mem_filter, decide_eq_true_eq]

theorem conflictGroup_concat (items : List Instruction) (item : Instruction) (key : Str) :
    conflictGroup (items ++ [item]) key =
      if item.conflictKey = key ∧ item.conflictKey ≠ [] ∧ item.polarity ≠ [] then
        conflictGroup items key ++ [item]
      else conflictGroup items key := by
  rw [conflictGroup, List.filter_append, List.filter_cons]
  split
  · next h => rw [if_pos (of_decide_eq_true h)]; rfl
  · next h => rw [if_neg (by simpa using h)]; exact List.append_nil _

theorem get_byConflict (items : List Instruction) (key : Str) :
    (byConflict items).get key =
      if conflictGroup items key = [] then none else some (conflictGroup items key) := by
  induction items using List.reverseRecOn with
  | nil => rfl
  | append_singleton items item ih =>
      have hstep : byConflict (items ++ [item]) =
          if item.conflictKey = [] ∨ item.polarity = [] then byConflict items
          else (byConflict items).set item.conflictKey
            (((byConflict items).get item.conflictKey).getD [] ++ [item]) := by
        rw [byConflict, List.foldl_append]
        rfl
      have hgroup := conflictGroup_concat items item key
      rw [hstep]
      split
      · next hskip =>
          rw [if_neg (by tauto)] at hgroup
          rw [hgroup]
          exact ih
      · next hkeep =>
          rw [not_or] at hkeep
          rw [OrderedDict.get_set]
          by_cases hkey : key = item.conflictKey
          · subst hkey
            rw [if_pos ⟨rfl, hkeep⟩] at hgroup
            rw [hgroup, if_pos rfl, if_neg (by simp), ih]
            split
            · next hnil => rw [hnil]; rfl
            · rfl
          · rw [if_neg (fun h => hkey h.1.symm)] at hgroup
            rw [hgroup, if_neg hkey]
            exact ih

theorem mem_byConflict {items : List Instruction} {entry : Str × List Instruction} :
    entry ∈ (byConflict items).entries ↔
      entry.2 = conflictGroup items entry.1 ∧ conflictGroup items entry.1 ≠ [] := by
  obtain ⟨key, group⟩ := entry
  constructor
  · intro hmem
    have hget := (byConflict items).get_of_mem hmem
    rw [get_byConflict] at hget
    split at hget
    · cases hget
    · next hne => exact ⟨(Option.some.inj hget).symm, hne⟩
  · rintro ⟨hgroup, hne⟩
    apply OrderedDict.mem_of_get
    rw [get_byConflict, if_neg hne, ← hgroup]

/-! ## The contest of a group -/

section Contest

variable (casefold : Str → Str)

/-- The winner of a group with two polarities. -/
def verdict (group : List Instruction) : Option Instruction :=
  if (group.map Instruction.polarity).dedup.length < 2 then none
  else group.argmax (winnerKey casefold)

def losers (group : List Instruction) : List Instruction :=
  match verdict casefold group with
  | none => []
  | some winner => group.filter fun item => item.id ≠ winner.id

def conflictRecords (key : Str) (group : List Instruction) : List InstructionConflict :=
  match verdict casefold group with
  | none => []
  | some winner => (losers casefold group).map (conflictRecord key winner)

theorem foldl_shadow (key : Str) (winner : Instruction) (group : List Instruction) (s : Contest) :
    group.foldl (shadow key winner) s =
      { winners := s.winners.diff (group.filter fun item => item.id ≠ winner.id)
        shadowed := s.shadowed ++ group.filter fun item => item.id ≠ winner.id
        conflicts := s.conflicts ++ (group.filter fun item => item.id ≠ winner.id).map
          (conflictRecord key winner) } := by
  induction group generalizing s with
  | nil => simp
  | cons item group ih =>
      rw [List.foldl_cons, ih, shadow]
      by_cases hsame : item.id = winner.id
      · rw [if_pos hsame, List.filter_cons_of_neg (by simpa using hsame)]
      · rw [if_neg hsame, List.filter_cons_of_pos (by simpa using hsame)]
        simp

theorem contest_eq (s : Contest) (entry : Str × List Instruction) :
    contest casefold s entry =
      { winners := s.winners.diff (losers casefold entry.2)
        shadowed := s.shadowed ++ losers casefold entry.2
        conflicts := s.conflicts ++ conflictRecords casefold entry.1 entry.2 } := by
  rw [contest, conflictRecords, losers, verdict]
  split
  · simp
  · cases entry.2.argmax (winnerKey casefold) with
    | none => simp
    | some winner => exact foldl_shadow entry.1 winner entry.2 s

/-- After the loop the winners are what no group took away. -/
theorem foldl_contest (entries : List (Str × List Instruction)) (s : Contest) :
    entries.foldl (contest casefold) s =
      { winners := s.winners.diff (entries.flatMap fun entry => losers casefold entry.2)
        shadowed := s.shadowed ++ entries.flatMap fun entry => losers casefold entry.2
        conflicts := s.conflicts ++
          entries.flatMap fun entry => conflictRecords casefold entry.1 entry.2 } := by
  induction entries generalizing s with
  | nil => simp
  | cons entry entries ih =>
      rw [List.foldl_cons, ih, contest_eq]
      simp

variable {casefold}

theorem verdict_mem {group : List Instruction} {winner : Instruction}
    (h : verdict casefold group = some winner) : winner ∈ group := by
  rw [verdict] at h
  split at h
  · cases h
  · exact List.argmax_mem h

theorem verdict_max {group : List Instruction} {winner item : Instruction}
    (h : verdict casefold group = some winner) (hitem : item ∈ group) :
    winnerKey casefold item ≤ winnerKey casefold winner := by
  rw [verdict] at h
  split at h
  · cases h
  · exact List.le_of_mem_argmax hitem h

/-- Two polarities make a contest. -/
theorem verdict_isSome {group : List Instruction} {a b : Instruction} (ha : a ∈ group)
    (hb : b ∈ group) (hne : a.polarity ≠ b.polarity) : ∃ winner, verdict casefold group = some winner := by
  have hlength : ¬ (group.map Instruction.polarity).dedup.length < 2 := by
    intro hshort
    have hmem : ∀ item ∈ group, item.polarity ∈ (group.map Instruction.polarity).dedup :=
      fun item hitem => List.mem_dedup.mpr (List.mem_map_of_mem hitem)
    have hpolarity := hmem a ha
    have hpolarity' := hmem b hb
    generalize (group.map Instruction.polarity).dedup = polarities at hshort hpolarity hpolarity'
    match polarities with
    | [] => cases hpolarity
    | [polarity] =>
        rw [List.mem_singleton] at hpolarity hpolarity'
        exact hne (hpolarity.trans hpolarity'.symm)
    | _ :: _ :: _ =>
        rw [List.length_cons, List.length_cons] at hshort
        omega
  rw [verdict, if_neg hlength]
  apply Option.ne_none_iff_exists'.mp
  rw [ne_eq, List.argmax_eq_none]
  rintro rfl
  cases ha

theorem id_of_winnerKey {a b : Instruction} (h : winnerKey casefold a = winnerKey casefold b) :
    a.id = b.id := by
  simp only [winnerKey, EmbeddingLike.apply_eq_iff_eq, Prod.mk.injEq] at h
  exact h.2.2.2.2.2.2.2

theorem precedence_of_winnerKey {a b : Instruction}
    (h : winnerKey casefold a ≤ winnerKey casefold b) : a.layer.precedence ≤ b.layer.precedence := by
  rcases Prod.Lex.le_iff.mp h with hlt | ⟨heq, _⟩
  · exact hlt.le
  · exact heq.le

theorem mem_losers {group : List Instruction} {item : Instruction} :
    item ∈ losers casefold group ↔
      ∃ winner, verdict casefold group = some winner ∧ item ∈ group ∧ item.id ≠ winner.id := by
  rw [losers]
  cases verdict casefold group with
  | none => simp
  | some winner => simp

end Contest

/-! ## The result -/

section Result

variable {casefold : Str → Str} {request : ScopeRequest} {values : List (Option Instruction)}

/-- The active instructions without the repeated ones. -/
def distinct (casefold : Str → Str) (request : ScopeRequest) (values : List (Option Instruction)) :
    List Instruction := (dedupe casefold [] (active request values)).1

/-- Everybody who lost a contest. -/
def allLosers (casefold : Str → Str) (items : List Instruction) : List Instruction :=
  (byConflict items).entries.flatMap fun entry => losers casefold entry.2

/-- What the result says about the active instructions. -/
structure Resolved (casefold : Str → Str) (request : ScopeRequest)
    (values : List (Option Instruction)) : Prop where
  disjoint : ∀ item ∈ (resolve casefold request values).instructions,
    item ∉ (resolve casefold request values).shadowed
  counted : (resolve casefold request values).activeCount =
    (resolve casefold request values).instructions.length +
      (resolve casefold request values).shadowed.length +
      (resolve casefold request values).deduplicatedCount
  /-- Two polarities of one conflict key never win together. -/
  agree : ∀ a ∈ (resolve casefold request values).instructions,
    ∀ b ∈ (resolve casefold request values).instructions, a.conflictKey = b.conflictKey →
      a.conflictKey ≠ [] → a.polarity ≠ [] → b.polarity ≠ [] → a.polarity = b.polarity
  /-- In a group with two polarities exactly the maximum wins. -/
  strongest : ∀ key, ∀ a ∈ conflictGroup (distinct casefold request values) key,
    ∀ b ∈ conflictGroup (distinct casefold request values) key, a.polarity ≠ b.polarity →
      ∀ item ∈ conflictGroup (distinct casefold request values) key,
        item ∈ (resolve casefold request values).instructions ↔
          ∀ other ∈ conflictGroup (distinct casefold request values) key,
            winnerKey casefold other ≤ winnerKey casefold item
  /-- A protected instruction is shadowed by a winner that is not weaker. -/
  guarded : ∀ loser ∈ (resolve casefold request values).shadowed, loser.guarded = true →
    (∃ conflict ∈ (resolve casefold request values).conflicts, conflict.loserId = loser.id) ∧
      ∀ conflict ∈ (resolve casefold request values).conflicts, conflict.loserId = loser.id →
        ∃ winner ∈ (resolve casefold request values).instructions,
          winner.id = conflict.winnerId ∧ loser.layer.precedence ≤ winner.layer.precedence

theorem mem_allLosers {items : List Instruction} {item : Instruction} :
    item ∈ allLosers casefold items ↔ item ∈ losers casefold (conflictGroup items item.conflictKey) := by
  rw [allLosers, List.mem_flatMap]
  constructor
  · rintro ⟨entry, hentry, hitem⟩
    obtain ⟨hgroup, _⟩ := mem_byConflict.mp hentry
    rw [hgroup] at hitem
    obtain ⟨_, _, hmem, _⟩ := mem_losers.mp hitem
    rw [(mem_conflictGroup.mp hmem).2.1]
    exact hitem
  · intro hitem
    refine ⟨(item.conflictKey, conflictGroup items item.conflictKey), mem_byConflict.mpr ⟨rfl, ?_⟩,
      hitem⟩
    obtain ⟨_, _, hmem, _⟩ := mem_losers.mp hitem
    exact List.ne_nil_of_mem hmem

theorem nodup_allLosers {items : List Instruction} (h : items.Nodup) :
    (allLosers casefold items).Nodup := by
  rw [allLosers, List.nodup_flatMap]
  constructor
  · intro entry hentry
    rw [losers]
    split
    · exact List.nodup_nil
    · rw [(mem_byConflict.mp hentry).1]
      exact (h.filter _).filter _
  · have hkeys : (byConflict items).entries.Pairwise fun a b => a.1 ≠ b.1 :=
      List.pairwise_map.mp (byConflict items).nodup
    refine hkeys.imp_of_mem ?_
    intro a b ha hb hne item hitem hitem'
    obtain ⟨_, _, hmem, _⟩ := mem_losers.mp hitem
    obtain ⟨_, _, hmem', _⟩ := mem_losers.mp hitem'
    rw [(mem_byConflict.mp ha).1] at hmem
    rw [(mem_byConflict.mp hb).1] at hmem'
    exact hne ((mem_conflictGroup.mp hmem).2.1.symm.trans (mem_conflictGroup.mp hmem').2.1)

theorem mem_of_allLosers {items : List Instruction} {item : Instruction}
    (h : item ∈ allLosers casefold items) : item ∈ items := by
  obtain ⟨_, _, hmem, _⟩ := mem_losers.mp (mem_allLosers.mp h)
  exact (mem_conflictGroup.mp hmem).1

theorem perm_instructions : (resolve casefold request values).instructions.Perm
    ((distinct casefold request values).diff (allLosers casefold (distinct casefold request values))) := by
  refine (List.perm_insertionSort _ _).trans ?_
  rw [foldl_contest]
  exact List.Perm.refl _

theorem perm_shadowed : (resolve casefold request values).shadowed.Perm
    (allLosers casefold (distinct casefold request values)) := by
  refine (List.perm_insertionSort _ _).trans ?_
  rw [foldl_contest]
  exact List.Perm.refl _

theorem perm_conflicts : (resolve casefold request values).conflicts.Perm
    ((byConflict (distinct casefold request values)).entries.flatMap fun entry =>
      conflictRecords casefold entry.1 entry.2) := by
  refine (List.perm_insertionSort _ _).trans ?_
  rw [foldl_contest]
  exact List.Perm.refl _

theorem mem_conflicts {conflict : InstructionConflict} :
    conflict ∈ (resolve casefold request values).conflicts ↔
      ∃ key, conflict ∈ conflictRecords casefold key
        (conflictGroup (distinct casefold request values) key) := by
  rw [perm_conflicts.mem_iff, List.mem_flatMap]
  constructor
  · rintro ⟨entry, hentry, hconflict⟩
    rw [(mem_byConflict.mp hentry).1] at hconflict
    exact ⟨entry.1, hconflict⟩
  · rintro ⟨key, hconflict⟩
    refine ⟨(key, conflictGroup (distinct casefold request values) key),
      mem_byConflict.mpr ⟨rfl, ?_⟩, hconflict⟩
    intro hnil
    rw [hnil] at hconflict
    cases hconflict

theorem distinct_sublist :
    ((distinct casefold request values).map Instruction.id).Sublist
      ((active request values).map Instruction.id) :=
  (dedupe_spec casefold (active request values) []).1.map Instruction.id

section Distinct

variable (hids : ((active request values).map Instruction.id).Nodup)
include hids

theorem distinct_nodup : (distinct casefold request values).Nodup :=
  (distinct_sublist.nodup hids).of_map

/-- Instructions with one id are one. -/
theorem distinct_inj {a b : Instruction} (ha : a ∈ distinct casefold request values)
    (hb : b ∈ distinct casefold request values) (h : a.id = b.id) : a = b :=
  List.inj_on_of_nodup_map (distinct_sublist.nodup hids) ha hb h

theorem mem_instructions {item : Instruction} :
    item ∈ (resolve casefold request values).instructions ↔
      item ∈ distinct casefold request values ∧
        item ∉ allLosers casefold (distinct casefold request values) := by
  rw [perm_instructions.mem_iff, (distinct_nodup hids).mem_sdiff_iff]

/-- The winner of a contest is among the winners. -/
theorem verdict_wins {key : Str} {winner : Instruction}
    (h : verdict casefold (conflictGroup (distinct casefold request values) key) = some winner) :
    winner ∈ (resolve casefold request values).instructions := by
  obtain ⟨hmem, hkey, _⟩ := mem_conflictGroup.mp (verdict_mem h)
  refine (mem_instructions hids).mpr ⟨hmem, ?_⟩
  rw [mem_allLosers, mem_losers]
  rintro ⟨winner', hverdict, _, hne⟩
  rw [hkey, h] at hverdict
  cases hverdict
  exact hne rfl

/-- In a contest only the winner is left. -/
theorem eq_verdict {key : Str} {item winner : Instruction}
    (h : verdict casefold (conflictGroup (distinct casefold request values) key) = some winner)
    (hgroup : item ∈ conflictGroup (distinct casefold request values) key)
    (hitem : item ∈ (resolve casefold request values).instructions) : item = winner := by
  obtain ⟨hmem, hkey, _⟩ := mem_conflictGroup.mp hgroup
  obtain ⟨_, hnot⟩ := (mem_instructions hids).mp hitem
  refine distinct_inj hids hmem (mem_conflictGroup.mp (verdict_mem h)).1 ?_
  by_contra hne
  refine hnot (mem_allLosers.mpr (mem_losers.mpr ⟨winner, ?_, ?_, hne⟩))
  · rw [hkey]
    exact h
  · rw [hkey]
    exact hgroup

end Distinct

end Result

/-- An instruction of the user, without a scope. -/
def userInstruction (id content conflictKey polarity : String) (h : content.toList ≠ []) :
    Instruction where
  id := id.toList
  content := content.toList
  source := "user".toList
  layer := .user
  scope := .global
  scopeId := []
  guarded := false
  conflictKey := conflictKey.toList
  polarity := polarity.toList
  metadata := []
  nonempty := h
  protectedLayer := by decide

/-- Two instructions on one subject. -/
def opposed (conflictKey : String) : List (Option Instruction) :=
  [some (userInstruction "i1" "Use tabs" conflictKey "allow" (by decide)),
    some (userInstruction "i2" "Use spaces" conflictKey "deny" (by decide))]

end Agent
end CodeCub

import CodeCub.Tooling.Contracts

/-!
# Run artefacts and the side-effect ledger

`RunStore` keeps one `task_state.json` per run.  The ledger of side effects lives
both in the `TaskState` handle a worker holds and in that file: a claim and an
update read the file, change it and copy the result into the handle, while
`writeTaskState` replaces the file by whatever the handle holds.
-/

namespace CodeCub
namespace Runs

open Python Tooling

abbrev Timestamp := String

/-- The values of the `state` field of a ledger entry. -/
inductive OperationState
  | claimed
  | completed
  | uncertain
  deriving DecidableEq, Repr

/-- The part of a tool's metadata that the ledger keeps.  The two `Option` fields
are `None` when the tool raised before its result was checked. -/
structure ResultMetadata where
  toolStatus : ToolStatus
  toolErrorCode : ErrorCode
  toolExecutionSuccess : Bool
  toolBusinessSuccess : Bool
  toolResultValidationFailed : Option Bool
  toolResultFailureReason : Option String
  workspaceChanged : Bool
  deriving DecidableEq, Repr

structure Operation where
  operationKey : String
  toolName : String
  argsDigest : String
  state : OperationState
  createdAt : Timestamp
  updatedAt : Timestamp
  resultMetadata : Option ResultMetadata
  deriving DecidableEq, Repr

abbrev Ledger := Dict String Operation

inductive TaskStatus
  | running
  | completed
  | stopped
  | failed
  deriving DecidableEq, Repr

structure TaskState where
  runId : String
  taskId : String
  userRequest : String
  status : TaskStatus := .running
  toolSteps : Nat := 0
  attempts : Nat := 0
  lastTool : String := ""
  stopReason : String := ""
  finalAnswer : String := ""
  checkpointId : String := ""
  resumeStatus : String := ""
  sideEffectOperations : Ledger := ∅

namespace TaskState

def recordAttempt (taskState : TaskState) : TaskState :=
  { taskState with attempts := taskState.attempts + 1 }

def recordTool (taskState : TaskState) (name : String) : TaskState :=
  { taskState with toolSteps := taskState.toolSteps + 1, lastTool := name }

end TaskState

/-- The `task_state.json` files under the store's root, by run id. -/
abbrev RunStore := Dict String TaskState

namespace RunStore

def writeTaskState (store : RunStore) (taskState : TaskState) : RunStore :=
  store.insert taskState.runId taskState

def loadTaskStatePayload (store : RunStore) (taskState : TaskState) : TaskState :=
  (store.lookup taskState.runId).getD taskState

structure Claim where
  claimed : Bool
  conflict : Bool
  priorState : Option OperationState
  entry : Operation

/-- The entry a first claim writes. -/
def newEntry (key toolName argsDigest : String) (timestamp : Timestamp) : Operation where
  operationKey := key
  toolName := toolName
  argsDigest := argsDigest
  state := .claimed
  createdAt := timestamp
  updatedAt := timestamp
  resultMetadata := none

def claimSideEffectOperation (store : RunStore) (taskState : TaskState)
    (operationKey toolName argsDigest : String) (timestamp : Timestamp) :
    Except String (Claim × RunStore × TaskState) :=
  let key := strip operationKey
  if key = "" then
    .error "operation_key must not be empty"
  else
    let payload := store.loadTaskStatePayload taskState
    let ledger := payload.sideEffectOperations
    match ledger.lookup key with
    | some previous =>
        let sameIdentity := previous.toolName == toolName && previous.argsDigest == argsDigest
        .ok ({ claimed := false, conflict := !sameIdentity,
               priorState := some previous.state, entry := previous },
             store, { taskState with sideEffectOperations := ledger })
    | none =>
        let entry := newEntry key toolName argsDigest timestamp
        let ledger := ledger.insert key entry
        .ok ({ claimed := true, conflict := false, priorState := none, entry := entry },
             AList.insert taskState.runId { payload with sideEffectOperations := ledger } store,
             { taskState with sideEffectOperations := ledger })

def updateSideEffectOperation (store : RunStore) (taskState : TaskState) (operationKey : String)
    (state : OperationState) (resultMetadata : Option ResultMetadata) (timestamp : Timestamp) :
    Except String (RunStore × TaskState) :=
  let key := strip operationKey
  let payload := store.loadTaskStatePayload taskState
  let ledger := payload.sideEffectOperations
  match ledger.lookup key with
  | none => .error "side effect operation was not claimed"
  | some entry =>
      let entry := { entry with state, updatedAt := timestamp, resultMetadata }
      let ledger := ledger.insert key entry
      .ok (AList.insert taskState.runId { payload with sideEffectOperations := ledger } store,
           { taskState with sideEffectOperations := ledger })

/-- The ledger stored in the run's `task_state.json`; empty while there is no
file. -/
def storedLedger (store : RunStore) (runId : String) : Ledger :=
  match store.lookup runId with
  | some payload => payload.sideEffectOperations
  | none => ∅

/-- The ledger that the next claim or update through this handle reads. -/
def visibleLedger (store : RunStore) (taskState : TaskState) : Ledger :=
  (store.loadTaskStatePayload taskState).sideEffectOperations

end RunStore

/-- Two entries of one key that describe the same logical operation. -/
def Operation.SameIdentity (a b : Operation) : Prop :=
  a.toolName = b.toolName ∧ a.argsDigest = b.argsDigest

namespace Ledger

/-- `b` keeps every key of `a`, with the tool and the arguments it was claimed
for.  The state of the entry may differ. -/
def Extends (a b : Ledger) : Prop :=
  ∀ key entry, a.lookup key = some entry →
    ∃ entry', b.lookup key = some entry' ∧ entry.SameIdentity entry'

theorem Extends.refl (a : Ledger) : Extends a a :=
  fun _ entry h => ⟨entry, h, rfl, rfl⟩

theorem Extends.trans {a b c : Ledger} (hab : Extends a b) (hbc : Extends b c) :
    Extends a c := by
  intro key entry h
  obtain ⟨entry₁, h₁, hid₁⟩ := hab key entry h
  obtain ⟨entry₂, h₂, hid₂⟩ := hbc key entry₁ h₁
  exact ⟨entry₂, h₂, hid₁.1.trans hid₂.1, hid₁.2.trans hid₂.2⟩

theorem Extends.mem {a b : Ledger} (h : Extends a b) {key : String} (hkey : key ∈ a) :
    key ∈ b := by
  obtain ⟨entry, hentry⟩ := Option.isSome_iff_exists.mp (AList.lookup_isSome.mpr hkey)
  obtain ⟨entry', hentry', -⟩ := h key entry hentry
  exact AList.lookup_isSome.mp (by rw [hentry']; rfl)

theorem extends_insert_of_lookup_eq_none {a : Ledger} {key : String} (entry : Operation)
    (h : a.lookup key = none) : Extends a (a.insert key entry) := by
  intro key' entry' h'
  have hne : key' ≠ key := by
    intro hsame
    subst hsame
    rw [h] at h'
    cases h'
  exact ⟨entry', by rw [AList.lookup_insert_ne hne]; exact h', rfl, rfl⟩

theorem extends_insert_of_sameIdentity {a : Ledger} {key : String} {old new : Operation}
    (h : a.lookup key = some old) (hid : old.SameIdentity new) :
    Extends a (a.insert key new) := by
  intro key' entry' h'
  by_cases hkey : key' = key
  · subst hkey
    have hold : old = entry' := Option.some.inj (h.symm.trans h')
    subst hold
    exact ⟨new, AList.lookup_insert a, hid⟩
  · exact ⟨entry', by rw [AList.lookup_insert_ne hkey]; exact h', rfl, rfl⟩

end Ledger

namespace RunStore

variable {store store' : RunStore} {taskState taskState' : TaskState}
  {operationKey toolName argsDigest : String} {timestamp : Timestamp} {claim : Claim}

@[simp] theorem visibleLedger_insert (payload : TaskState) :
    visibleLedger (AList.insert taskState.runId payload store) taskState =
      payload.sideEffectOperations := by
  simp [visibleLedger, loadTaskStatePayload]

@[simp] theorem storedLedger_insert (runId : String) (payload : TaskState) :
    storedLedger (AList.insert runId payload store) runId = payload.sideEffectOperations := by
  simp [storedLedger]

/-- Once the file exists, a claim through any handle of the run reads the file. -/
theorem visibleLedger_eq_storedLedger {payload : TaskState}
    (h : store.lookup taskState.runId = some payload) :
    visibleLedger store taskState = storedLedger store taskState.runId := by
  simp [visibleLedger, loadTaskStatePayload, storedLedger, h]

theorem lookup_runId_of_mem_storedLedger {runId key : String}
    (h : key ∈ storedLedger store runId) : ∃ payload, store.lookup runId = some payload := by
  unfold storedLedger at h
  cases hfile : store.lookup runId with
  | some payload => exact ⟨payload, rfl⟩
  | none =>
      rw [hfile] at h
      exact absurd h (AList.notMem_empty key)

/-- The two ways a claim can succeed or be refused. -/
theorem claimSideEffectOperation_cases
    (h : store.claimSideEffectOperation taskState operationKey toolName argsDigest timestamp =
      .ok (claim, store', taskState')) :
    (∃ previous, (visibleLedger store taskState).lookup (strip operationKey) = some previous ∧
      claim.claimed = false ∧
      claim.conflict = !(previous.toolName == toolName && previous.argsDigest == argsDigest) ∧
      claim.priorState = some previous.state ∧ store' = store ∧
      taskState' = { taskState with sideEffectOperations := visibleLedger store taskState }) ∨
    ((visibleLedger store taskState).lookup (strip operationKey) = none ∧
      claim.claimed = true ∧
      ∃ ledger, ledger = (visibleLedger store taskState).insert (strip operationKey)
          (newEntry (strip operationKey) toolName argsDigest timestamp) ∧
        store' = AList.insert taskState.runId
          { loadTaskStatePayload store taskState with sideEffectOperations := ledger } store ∧
        taskState' = { taskState with sideEffectOperations := ledger } ∧
        claim.entry = newEntry (strip operationKey) toolName argsDigest timestamp) := by
  unfold claimSideEffectOperation at h
  simp only at h
  split at h
  · cases h
  · split at h
    · next previous hprev =>
        cases h
        exact Or.inl ⟨previous, hprev, rfl, rfl, rfl, rfl, rfl⟩
    · next hnone =>
        cases h
        exact Or.inr ⟨hnone, rfl, _, rfl, rfl, rfl, rfl⟩

theorem strip_ne_of_claimSideEffectOperation {result : Claim × RunStore × TaskState}
    (h : store.claimSideEffectOperation taskState operationKey toolName argsDigest timestamp =
      .ok result) : strip operationKey ≠ "" := by
  intro hkey
  simp [claimSideEffectOperation, hkey] at h

/-- A claim raises only on a blank key. -/
theorem claimSideEffectOperation_ok (store : RunStore) (taskState : TaskState)
    (toolName argsDigest : String) (timestamp : Timestamp) (hkey : strip operationKey ≠ "") :
    ∃ result, store.claimSideEffectOperation taskState operationKey toolName argsDigest
      timestamp = .ok result := by
  unfold claimSideEffectOperation
  simp only [if_neg hkey]
  split
  · exact ⟨_, rfl⟩
  · exact ⟨_, rfl⟩

theorem updateSideEffectOperation_ok {state : OperationState}
    {resultMetadata : Option ResultMetadata} {entry : Operation}
    (h : (visibleLedger store taskState).lookup (strip operationKey) = some entry) :
    ∃ result, store.updateSideEffectOperation taskState operationKey state resultMetadata
      timestamp = .ok result := by
  unfold visibleLedger at h
  simp [updateSideEffectOperation, h]

theorem updateSideEffectOperation_cases {state : OperationState}
    {resultMetadata : Option ResultMetadata}
    (h : store.updateSideEffectOperation taskState operationKey state resultMetadata timestamp =
      .ok (store', taskState')) :
    ∃ entry ledger, (visibleLedger store taskState).lookup (strip operationKey) = some entry ∧
      ledger = (visibleLedger store taskState).insert (strip operationKey)
        { entry with state, updatedAt := timestamp, resultMetadata } ∧
      store' = AList.insert taskState.runId
        { loadTaskStatePayload store taskState with sideEffectOperations := ledger } store ∧
      taskState' = { taskState with sideEffectOperations := ledger } := by
  unfold updateSideEffectOperation at h
  simp only at h
  split at h
  · cases h
  · next entry hentry =>
      cases h
      exact ⟨entry, _, hentry, rfl, rfl, rfl⟩

end RunStore

end Runs
end CodeCub

import CodeCub.Machine.Run
import CodeCub.Runs.RunStore
import Mathlib.Algebra.GroupWithZero.Nat

/-!
# Several handles of one run

When a queue message is reclaimed while its first worker is still alive, two or
more `TaskState` handles of the same run share one `task_state.json`.  A claim
and an update start from the file, a state write starts from the handle's memory,
and each of them is one atomic step here.
-/

namespace CodeCub
namespace Runs

open Python

/-- The handles of one run and the store they share. -/
structure Workers (H : Type) where
  store : RunStore
  runId : String
  handles : H → TaskState
  sameRun : ∀ h, (handles h).runId = runId

/-- One atomic step of the worker that holds the handle. -/
inductive WorkerStep (H : Type)
  | claim (handle : H) (operationKey toolName argsDigest : String) (timestamp : Timestamp)
  | update (handle : H) (operationKey : String) (state : OperationState)
      (resultMetadata : Option ResultMetadata) (timestamp : Timestamp)
  | write (handle : H)

namespace Workers

variable {H : Type} [DecidableEq H]

/-- Puts a handle back after a step that changed its ledger only. -/
def setLedger (workers : Workers H) (store : RunStore) (handle : H) (ledger : Ledger) :
    Workers H where
  store := store
  runId := workers.runId
  handles := Function.update workers.handles handle
    { workers.handles handle with sideEffectOperations := ledger }
  sameRun := by
    intro h
    by_cases hh : h = handle
    · subst hh
      simp [workers.sameRun]
    · simp [Function.update_of_ne hh, workers.sameRun]

/-- The answer of a step is the claim it was granted or refused, if it asked for
one and the store did not raise. -/
def step (workers : Workers H) : WorkerStep H → Workers H × Option RunStore.Claim
  | .claim handle operationKey toolName argsDigest timestamp =>
      match workers.store.claimSideEffectOperation (workers.handles handle) operationKey toolName
        argsDigest timestamp with
      | .error _ => (workers, none)
      | .ok (claim, store, taskState) =>
          (workers.setLedger store handle taskState.sideEffectOperations, some claim)
  | .update handle operationKey state resultMetadata timestamp =>
      match workers.store.updateSideEffectOperation (workers.handles handle) operationKey state
        resultMetadata timestamp with
      | .error _ => (workers, none)
      | .ok (store, taskState) =>
          (workers.setLedger store handle taskState.sideEffectOperations, none)
  | .write handle =>
      ({ workers with store := workers.store.writeTaskState (workers.handles handle) }, none)

def machine (H : Type) [DecidableEq H] : Machine (Workers H) (WorkerStep H) (Option RunStore.Claim) where
  step := step

/-- The ledger in the run's `task_state.json`. -/
def stored (workers : Workers H) : Ledger := workers.store.storedLedger workers.runId

/-- A state write only comes from a handle that knows every stored key. -/
def Covers (workers : Workers H) : WorkerStep H → Prop
  | .write handle =>
      ∀ key, key ∈ workers.stored → key ∈ (workers.handles handle).sideEffectOperations
  | _ => True

/-- A key that is stored at one moment of the run is stored at every later one. -/
def Grows (workers : Workers H) (steps : List (WorkerStep H)) : Prop :=
  ∀ before between after, steps = before ++ between ++ after →
    ∀ key, key ∈ ((machine H).run workers before).stored →
      key ∈ ((machine H).run workers (before ++ between)).stored

/-- The step is told that it now owns `key`. -/
def Grants (workers : Workers H) (step : WorkerStep H) (key : String) : Prop :=
  ∃ claim, (machine H).out workers step = some claim ∧ claim.claimed = true ∧
    claim.entry.operationKey = key

/-- No key is granted at two moments of the run. -/
def GrantsOnce (workers : Workers H) (steps : List (WorkerStep H)) : Prop :=
  ∀ before first between later after,
    steps = before ++ first :: between ++ later :: after →
    ∀ key, Grants ((machine H).run workers before) first key →
      ¬ Grants ((machine H).run workers (before ++ first :: between)) later key

variable {workers : Workers H} {handle : H}

/-- A claim or an update replaces the file by the old ledger with one key set. -/
theorem stored_insert {payload : TaskState} {ledger ledger' : Ledger} :
    (workers.setLedger (AList.insert (workers.handles handle).runId
      { payload with sideEffectOperations := ledger } workers.store) handle ledger').stored =
      ledger := by
  simp [stored, setLedger, workers.sameRun]

omit [DecidableEq H] in
/-- Every stored key is visible through every handle. -/
theorem visible_of_stored {key : String} (h : key ∈ workers.stored) :
    workers.store.visibleLedger (workers.handles handle) = workers.stored := by
  obtain ⟨payload, hfile⟩ := RunStore.lookup_runId_of_mem_storedLedger h
  rw [← workers.sameRun handle] at hfile
  rw [RunStore.visibleLedger_eq_storedLedger hfile, stored, workers.sameRun]

/-- What one step can do to the file. -/
theorem next_stored (workers : Workers H) (step : WorkerStep H) :
    ((machine H).next workers step).stored = workers.stored ∨
    (∃ handle key entry, ((machine H).next workers step).stored =
      (workers.store.visibleLedger (workers.handles handle)).insert key entry) ∨
    (∃ handle, step = .write handle ∧
      ((machine H).next workers step).stored = (workers.handles handle).sideEffectOperations) := by
  simp only [Machine.next, machine]
  cases step with
  | claim handle operationKey toolName argsDigest timestamp =>
      cases hclaim : workers.store.claimSideEffectOperation (workers.handles handle) operationKey
        toolName argsDigest timestamp with
      | error exn =>
          simp only [Workers.step, hclaim]
          exact Or.inl trivial
      | ok result =>
          obtain ⟨claim, store, taskState⟩ := result
          simp only [Workers.step, hclaim]
          rcases RunStore.claimSideEffectOperation_cases hclaim with
            ⟨previous, -, -, -, -, rfl, -⟩ | ⟨-, -, ledger, rfl, rfl, -⟩
          · exact Or.inl rfl
          · exact Or.inr (Or.inl ⟨handle, _, _, stored_insert⟩)
  | update handle operationKey state resultMetadata timestamp =>
      cases hupdate : workers.store.updateSideEffectOperation (workers.handles handle)
        operationKey state resultMetadata timestamp with
      | error exn =>
          simp only [Workers.step, hupdate]
          exact Or.inl trivial
      | ok result =>
          obtain ⟨store, taskState⟩ := result
          simp only [Workers.step, hupdate]
          obtain ⟨entry, ledger, -, rfl, rfl, -⟩ :=
            RunStore.updateSideEffectOperation_cases hupdate
          exact Or.inr (Or.inl ⟨handle, _, _, stored_insert⟩)
  | write handle =>
      refine Or.inr (Or.inr ⟨handle, rfl, ?_⟩)
      simp [Workers.step, stored, RunStore.writeTaskState, workers.sameRun]

/-- A step loses no stored key, unless it is a write from a handle that did not
know the key. -/
theorem step_keeps {step : WorkerStep H} (hcovers : workers.Covers step) {key : String}
    (h : key ∈ workers.stored) : key ∈ ((machine H).next workers step).stored := by
  rcases next_stored workers step with heq | ⟨handle, key', entry, heq⟩ | ⟨handle, rfl, heq⟩
  · rw [heq]
    exact h
  · rw [heq, visible_of_stored h, AList.mem_insert]
    exact Or.inr h
  · rw [heq]
    exact hcovers key h

/-- A granted key was not stored before and is stored after. -/
theorem grants_stored {step : WorkerStep H} {key : String} (h : Grants workers step key) :
    key ∉ workers.stored ∧ key ∈ ((machine H).next workers step).stored := by
  obtain ⟨claim, hout, hclaimed, hkey⟩ := h
  cases step with
  | update handle operationKey state resultMetadata timestamp =>
      simp only [Machine.out, machine, Workers.step] at hout
      split at hout <;> cases hout
  | write handle => cases hout
  | claim handle operationKey toolName argsDigest timestamp =>
      cases hclaim : workers.store.claimSideEffectOperation (workers.handles handle) operationKey
        toolName argsDigest timestamp with
      | error exn =>
          simp only [Machine.out, machine, Workers.step, hclaim] at hout
          cases hout
      | ok result =>
          obtain ⟨claim', store, taskState⟩ := result
          simp only [Machine.out, Machine.next, machine, Workers.step, hclaim] at hout ⊢
          cases hout
          rcases RunStore.claimSideEffectOperation_cases hclaim with
            ⟨previous, -, hnot, -⟩ | ⟨hnone, -, ledger, rfl, rfl, -, hentry⟩
          · rw [hclaimed] at hnot
            cases hnot
          · have hkey : strip operationKey = key := by
              rw [hentry] at hkey
              exact hkey
            subst hkey
            refine ⟨?_, ?_⟩
            · intro hstored
              rw [visible_of_stored hstored] at hnone
              exact AList.lookup_eq_none.mp hnone hstored
            · rw [stored_insert, AList.mem_insert]
              exact Or.inl rfl

/-- Keys persist over any stretch of a run whose writes are covered. -/
theorem run_keeps {steps : List (WorkerStep H)}
    (hcovers : (machine H).Along Covers workers steps) {key : String}
    (h : key ∈ workers.stored) : key ∈ ((machine H).run workers steps).stored :=
  Machine.run_invariant (P := fun w : Workers H => key ∈ w.stored)
    (fun _ _ hkey hstep => step_keeps hstep hkey) h hcovers

theorem grows_of_covers {steps : List (WorkerStep H)}
    (hcovers : (machine H).Along Covers workers steps) : Grows workers steps := by
  intro before between after hsplit key hkey
  subst hsplit
  rw [Machine.run_append]
  rw [List.append_assoc] at hcovers
  exact run_keeps (Machine.along_append.mp (Machine.along_append.mp hcovers).2).1 hkey

theorem grantsOnce_of_covers {steps : List (WorkerStep H)}
    (hcovers : (machine H).Along Covers workers steps) : GrantsOnce workers steps := by
  intro before first between later after hsplit key hfirst hlater
  subst hsplit
  have hstored := (grants_stored hfirst).2
  have hrest : (machine H).Along Covers ((machine H).run workers before) (first :: between) := by
    rw [List.append_assoc] at hcovers
    have h := (Machine.along_append.mp hcovers).2
    exact (Machine.along_append (b := later :: after).mp h).1
  refine (grants_stored hlater).1 ?_
  rw [Machine.run_append]
  exact run_keeps hrest.2 hstored

/-- Only a covered write lets the stored ledger grow. -/
theorem covers_of_grows {steps : List (WorkerStep H)} (hgrows : Grows workers steps) :
    (machine H).Along Covers workers steps := by
  rw [Machine.along_iff_split]
  intro before step after hsplit
  subst hsplit
  cases step with
  | claim handle operationKey toolName argsDigest timestamp => trivial
  | update handle operationKey state resultMetadata timestamp => trivial
  | write handle =>
      intro key hkey
      have hafter := hgrows before [.write handle] after (by simp) key hkey
      rw [Machine.run_append] at hafter
      simpa [Machine.run, Machine.next, machine, Workers.step, stored, RunStore.writeTaskState,
        Workers.sameRun] using hafter

/-- Over every interleaving, the stored ledger only grows and no key is granted
twice exactly when every state write came from a handle that knew all the keys
stored at that moment. -/
theorem ledger_grows_iff_covers (workers : Workers H) (steps : List (WorkerStep H)) :
    (Grows workers steps ∧ GrantsOnce workers steps) ↔
      (machine H).Along Covers workers steps :=
  ⟨fun h => covers_of_grows h.1, fun h => ⟨grows_of_covers h, grantsOnce_of_covers h⟩⟩

/-- Two workers of one run, just after the second one loaded the first one's
file. -/
def reclaimed : Workers (Fin 2) where
  store := AList.insert "run-1"
    { runId := "run-1", taskId := "task-1", userRequest := "page ops" } ∅
  runId := "run-1"
  handles _ := { runId := "run-1", taskId := "task-1", userRequest := "page ops" }
  sameRun _ := rfl

local instance twoWorkers : NeZero 2 := ⟨Nat.succ_ne_zero 1⟩

/-- The first worker claims, the second one writes its state, and then claims the
same key. -/
def doubleClaim : List (WorkerStep (Fin 2)) :=
  [.claim 0 "key-1" "notify" "d" "t0", .write 1, .claim 1 "key-1" "notify" "d" "t1"]

theorem doubleClaim_grants_twice :
    ¬ Grows reclaimed doubleClaim ∧ ¬ GrantsOnce reclaimed doubleClaim := by
  refine ⟨fun h => ?_, fun h => ?_⟩
  · have hlost := h [.claim 0 "key-1" "notify" "d" "t0"] [.write 1]
      [.claim 1 "key-1" "notify" "d" "t1"] rfl "key-1" (by decide)
    revert hlost
    decide
  · refine h [] (.claim 0 "key-1" "notify" "d" "t0") [.write 1]
      (.claim 1 "key-1" "notify" "d" "t1") [] rfl "key-1" ⟨_, rfl, ?_, ?_⟩ ⟨_, rfl, ?_, ?_⟩
    all_goals decide

end Workers
end Runs
end CodeCub

import CodeCub.Tooling.AtMostOnce

/-!
# Resuming a crashed run

A run keeps its ledger in `task_state.json`; the session keeps a copy of it in the
checkpoint that the loop takes at the end of a tool step.  A crash leaves the files
and the session, and a session that is resumed under a fresh run id starts from
the checkpoint alone.  The steps below are the moments of the tool branch at which
a crash can fall.
-/

namespace CodeCub
namespace Runs

open Python Tooling

/-- The fields of a session checkpoint that a resumed run reads or links to. -/
structure Checkpoint where
  checkpointId : String
  parentCheckpointId : String
  sideEffectOperations : Ledger

/-- One run of a session: its state and files, the session's current checkpoint
and its history. -/
structure Session where
  world : World
  checkpoint : Option Checkpoint
  history : List String

inductive SessionStep
  | recordTool (name : String)
  | claim (operationKey toolName argsDigest : String) (timestamp : Timestamp)
  /-- The tool's own `run`, which leaves no trace in the files. -/
  | runTool
  | complete (operationKey : String) (success : Bool) (resultMetadata : ResultMetadata)
      (timestamp : Timestamp)
  | recordHistory (item : String)
  | writeTaskState
  | createCheckpoint (checkpointId : String)

/-- The step takes a checkpoint. -/
def SessionStep.IsCheckpoint : SessionStep → Prop
  | .createCheckpoint _ => True
  | _ => False

namespace Session

/-- The ledger a new run starts with: the one in its own state file, else the one
in the session's current checkpoint. -/
def initialLedger (store : RunStore) (checkpoint : Option Checkpoint) (runId : String) : Ledger :=
  match store.lookup runId with
  | some payload => payload.sideEffectOperations
  | none =>
      match checkpoint with
      | some checkpoint => checkpoint.sideEffectOperations
      | none => ∅

/-- `_RuntimeTurnLifecycle.initialize`. -/
def initializeTurn (breaker : ToolCircuitBreaker) (store : RunStore)
    (checkpoint : Option Checkpoint) (history : List String)
    (runId taskId userRequest resumeStatus : String) : Session where
  world := World.startRun breaker store
    { runId, taskId, userRequest, resumeStatus
      sideEffectOperations := initialLedger store checkpoint runId }
  checkpoint := checkpoint
  history := history ++ [userRequest]

def step (s : Session) : SessionStep → Session × Option RunStore.Claim
  | .recordTool name =>
      ({ s with world := { s.world with taskState := s.world.taskState.recordTool name } }, none)
  | .claim operationKey toolName argsDigest timestamp =>
      match s.world.store.claimSideEffectOperation s.world.taskState operationKey toolName
        argsDigest timestamp with
      | .error _ => (s, none)
      | .ok (claim, store, taskState) =>
          ({ s with world := { s.world with store, taskState } }, some claim)
  | .runTool => (s, none)
  | .complete operationKey success resultMetadata timestamp =>
      match s.world.store.updateSideEffectOperation s.world.taskState operationKey
        (if success then .completed else .uncertain) (some resultMetadata) timestamp with
      | .error _ => (s, none)
      | .ok (store, taskState) => ({ s with world := { s.world with store, taskState } }, none)
  | .recordHistory item => ({ s with history := s.history ++ [item] }, none)
  | .writeTaskState =>
      ({ s with world :=
          { s.world with store := s.world.store.writeTaskState s.world.taskState } }, none)
  | .createCheckpoint checkpointId =>
      let checkpoint : Checkpoint :=
        { checkpointId
          parentCheckpointId := (s.checkpoint.map Checkpoint.checkpointId).getD ""
          sideEffectOperations := s.world.taskState.sideEffectOperations }
      ({ s with
          checkpoint := some checkpoint
          world := { s.world with taskState := { s.world.taskState with checkpointId } } }, none)

def machine : Machine Session SessionStep (Option RunStore.Claim) where
  step := step

/-- The session after a crash, resumed under another run id. -/
def resume (s : Session) (breaker : ToolCircuitBreaker)
    (runId taskId userRequest resumeStatus : String) : Session :=
  initializeTurn breaker s.world.store s.checkpoint s.history runId taskId userRequest resumeStatus

/-- The step is a claim that is told it now owns `key`. -/
def Grants (s : Session) (step : SessionStep) (key : String) : Prop :=
  ∃ claim, machine.out s step = some claim ∧ claim.claimed = true ∧
    claim.entry.operationKey = key

/-- The session's checkpoint holds `key`. -/
def InCheckpoint (s : Session) (key : String) : Prop :=
  ∃ checkpoint, s.checkpoint = some checkpoint ∧ key ∈ checkpoint.sideEffectOperations

/-- Every key claimed before the crash was checkpointed after the claim; or no
checkpoint was taken in the run at all, and the one it started from has the key
already. -/
def Checkpointed (start : Session) (steps : List SessionStep) : Prop :=
  ∀ before step after key, steps = before ++ step :: after →
    Grants (machine.run start before) step key →
    (∃ later ∈ after, later.IsCheckpoint) ∨
    ((∀ other ∈ steps, ¬ other.IsCheckpoint) ∧ InCheckpoint start key)

/-- Every key claimed before the crash is in the ledger of the resumed run, and
no side-effect call that carries it runs its tool there. -/
def ResumeSafe (start : Session) (steps : List SessionStep) (resumed : World) : Prop :=
  ∀ before step after key, steps = before ++ step :: after →
    Grants (machine.run start before) step key →
    key ∈ resumed.ledger ∧
    ∀ (A : Type) (ctx : ToolContext A) (call : Call A) (env : Answers A),
      ctx.SideEffect call → strip call.operationKey = key →
      (ctx.execute resumed call env).2.entered = false

variable {s : Session} {key : String}

/-- What one step does to the ledgers: the run's own one evolves, and the
checkpoint stays or becomes the handle's ledger. -/
theorem step_evolves (s : Session) (step : SessionStep) :
    World.Evolves s.world (machine.next s step).world := by
  simp only [Machine.next, machine]
  cases step with
  | recordTool name => exact World.evolves_of_same rfl rfl rfl
  | claim operationKey toolName argsDigest timestamp =>
      cases hclaim : s.world.store.claimSideEffectOperation s.world.taskState operationKey toolName
        argsDigest timestamp with
      | error exn =>
          simp only [Session.step, hclaim]
          exact World.Evolves.refl _
      | ok result =>
          simp only [Session.step, hclaim]
          exact World.evolves_claim hclaim
  | runTool => exact World.Evolves.refl _
  | complete operationKey success resultMetadata timestamp =>
      cases hupdate : s.world.store.updateSideEffectOperation s.world.taskState operationKey
        (if success then .completed else .uncertain) (some resultMetadata) timestamp with
      | error exn =>
          simp only [Session.step, hupdate]
          exact World.Evolves.refl _
      | ok result =>
          simp only [Session.step, hupdate]
          exact World.evolves_update hupdate
  | recordHistory item => exact World.Evolves.refl _
  | writeTaskState => exact World.evolves_writeTaskState _
  | createCheckpoint checkpointId => exact World.evolves_of_same rfl rfl rfl

theorem step_checkpoint (s : Session) {step : SessionStep} (h : ¬ step.IsCheckpoint) :
    (machine.next s step).checkpoint = s.checkpoint := by
  simp only [Machine.next, machine]
  cases step with
  | createCheckpoint checkpointId => exact absurd trivial h
  | claim operationKey toolName argsDigest timestamp =>
      simp only [Session.step]
      split <;> rfl
  | complete operationKey success resultMetadata timestamp =>
      simp only [Session.step]
      split <;> rfl
  | _ => rfl

theorem run_evolves (s : Session) (steps : List SessionStep) :
    World.Evolves s.world (machine.run s steps).world :=
  Machine.run_related (P := fun _ => True) (R := fun a b : Session => World.Evolves a.world b.world)
    (fun s => World.Evolves.refl s.world) World.Evolves.trans (fun _ _ _ => trivial)
    (fun s step _ => step_evolves s step) steps trivial

theorem run_checkpoint (s : Session) {steps : List SessionStep}
    (h : ∀ step ∈ steps, ¬ step.IsCheckpoint) :
    (machine.run s steps).checkpoint = s.checkpoint := by
  induction steps generalizing s with
  | nil => rfl
  | cons step rest ih =>
      have hhead : ¬ step.IsCheckpoint := h step List.mem_cons_self
      have hrest : ∀ later ∈ rest, ¬ later.IsCheckpoint :=
        fun later hmem => h later (List.mem_cons_of_mem _ hmem)
      exact (ih (machine.next s step) hrest).trans (step_checkpoint s hhead)

/-- A granted key was new to the ledger, and is in it afterwards. -/
theorem grants_ledger {step : SessionStep} (h : Grants s step key) :
    key ∉ s.world.ledger ∧ key ∈ (machine.next s step).world.ledger ∧ ¬ step.IsCheckpoint ∧
      key ≠ "" := by
  obtain ⟨claim, hout, hclaimed, hkey⟩ := h
  simp only [Machine.out, Machine.next, machine] at hout ⊢
  cases step with
  | claim operationKey toolName argsDigest timestamp =>
      cases hclaim : s.world.store.claimSideEffectOperation s.world.taskState operationKey toolName
        argsDigest timestamp with
      | error exn =>
          simp only [Session.step, hclaim] at hout
          cases hout
      | ok result =>
          obtain ⟨claim', store, taskState⟩ := result
          simp only [Session.step, hclaim] at hout ⊢
          cases hout
          rcases RunStore.claimSideEffectOperation_cases hclaim with
            ⟨previous, -, hnot, -⟩ | ⟨hnone, -, ledger, hledger, rfl, rfl, hentry⟩
          · rw [hclaimed] at hnot
            cases hnot
          · have hkey : strip operationKey = key := by
              rw [hentry] at hkey
              exact hkey
            subst hkey
            refine ⟨AList.lookup_eq_none.mp hnone, ?_, id,
              RunStore.strip_ne_of_claimSideEffectOperation hclaim⟩
            rw [World.ledger_of_insert, hledger, AList.mem_insert]
            exact Or.inl rfl
  | complete operationKey success resultMetadata timestamp =>
      simp only [Session.step] at hout
      split at hout <;> cases hout
  | _ => cases hout

/-- A checkpoint taken in sync copies the run's ledger. -/
theorem checkpoint_copies (hsync : s.world.InSync) {step : SessionStep} (h : step.IsCheckpoint) :
    ∃ checkpoint, (machine.next s step).checkpoint = some checkpoint ∧
      checkpoint.sideEffectOperations = s.world.ledger := by
  cases step with
  | createCheckpoint checkpointId => exact ⟨_, rfl, hsync.symm⟩
  | _ => exact absurd h id

/-- Within a run the checkpoint lags behind the run's ledger, once the run has
taken one. -/
structure Behind (s : Session) : Prop where
  inSync : s.world.InSync
  extends_checkpoint : ∀ checkpoint, s.checkpoint = some checkpoint →
    Ledger.Extends checkpoint.sideEffectOperations s.world.ledger

theorem behind_of_checkpoint (hsync : s.world.InSync) {step : SessionStep}
    (h : step.IsCheckpoint) : Behind (machine.next s step) := by
  obtain ⟨hsync', hext⟩ := step_evolves s step hsync
  obtain ⟨checkpoint, hcheckpoint, hops⟩ := checkpoint_copies hsync h
  refine ⟨hsync', ?_⟩
  intro other hother
  have hsame : checkpoint = other := Option.some.inj (hcheckpoint.symm.trans hother)
  rw [← hsame, hops]
  exact hext

theorem Behind.step (h : Behind s) (step : SessionStep) : Behind (machine.next s step) := by
  by_cases hstep : step.IsCheckpoint
  · exact behind_of_checkpoint h.inSync hstep
  · obtain ⟨hsync, hext⟩ := step_evolves s step h.inSync
    refine ⟨hsync, ?_⟩
    intro checkpoint hcheckpoint
    rw [step_checkpoint s hstep] at hcheckpoint
    exact (h.extends_checkpoint checkpoint hcheckpoint).trans hext

theorem behind_of_mem {steps : List SessionStep} (hsync : s.world.InSync)
    (h : ∃ step ∈ steps, step.IsCheckpoint) : Behind (machine.run s steps) := by
  obtain ⟨step, hmem, hstep⟩ := h
  obtain ⟨before, after, rfl⟩ := List.append_of_mem hmem
  rw [Machine.run_append, Machine.run_cons]
  exact Machine.run_preserves (P := Behind) (fun s step h => Behind.step h step) after
    (behind_of_checkpoint (run_evolves s before hsync).1 hstep)

/-- The key is in the run's ledger and in the checkpoint. -/
structure Secured (key : String) (s : Session) : Prop where
  inSync : s.world.InSync
  inLedger : key ∈ s.world.ledger
  inCheckpoint : InCheckpoint s key

theorem secured_of_checkpoint (hsync : s.world.InSync) (hkey : key ∈ s.world.ledger)
    {step : SessionStep} (h : step.IsCheckpoint) : Secured key (machine.next s step) := by
  obtain ⟨hsync', hext⟩ := step_evolves s step hsync
  obtain ⟨checkpoint, hcheckpoint, hops⟩ := checkpoint_copies hsync h
  exact ⟨hsync', hext.mem hkey, checkpoint, hcheckpoint, by rw [hops]; exact hkey⟩

theorem Secured.step (h : Secured key s) (step : SessionStep) :
    Secured key (machine.next s step) := by
  by_cases hstep : step.IsCheckpoint
  · exact secured_of_checkpoint h.inSync h.inLedger hstep
  · obtain ⟨hsync, hext⟩ := step_evolves s step h.inSync
    refine ⟨hsync, hext.mem h.inLedger, ?_⟩
    unfold InCheckpoint
    rw [step_checkpoint s hstep]
    exact h.inCheckpoint

/-- A key of the ledger reaches the checkpoint with the next one that is taken,
and stays there. -/
theorem inCheckpoint_of_later {steps : List SessionStep} (hsync : s.world.InSync)
    (hkey : key ∈ s.world.ledger) (h : ∃ step ∈ steps, step.IsCheckpoint) :
    InCheckpoint (machine.run s steps) key := by
  obtain ⟨step, hmem, hstep⟩ := h
  obtain ⟨before, after, rfl⟩ := List.append_of_mem hmem
  obtain ⟨hsync', hext⟩ := run_evolves s before hsync
  rw [Machine.run_append, Machine.run_cons]
  exact (Machine.run_preserves (P := Secured key) (fun s step h => Secured.step h step) after
    (secured_of_checkpoint hsync' (hext.mem hkey) hstep)).inCheckpoint

/-- A run id without a state file starts from the checkpoint's keys. -/
theorem mem_resume_ledger {breaker : ToolCircuitBreaker}
    {runId taskId userRequest resumeStatus : String} (hfresh : s.world.store.lookup runId = none) :
    key ∈ (s.resume breaker runId taskId userRequest resumeStatus).world.ledger ↔
      InCheckpoint s key := by
  have hledger : (s.resume breaker runId taskId userRequest resumeStatus).world.ledger =
      initialLedger s.world.store s.checkpoint runId := World.startRun_inSync ..
  rw [hledger]
  unfold initialLedger InCheckpoint
  rw [hfresh]
  cases s.checkpoint with
  | none => simp [AList.notMem_empty]
  | some checkpoint => simp

/-- Whether the crash finds a granted key in the checkpoint. -/
theorem inCheckpoint_crash_iff {start : Session} {before after : List SessionStep}
    {step : SessionStep} (hsync : start.world.InSync)
    (hgrants : Grants (machine.run start before) step key) :
    InCheckpoint (machine.run start (before ++ step :: after)) key ↔
      (∃ later ∈ after, later.IsCheckpoint) ∨
        ((∀ other ∈ before ++ step :: after, ¬ other.IsCheckpoint) ∧ InCheckpoint start key) := by
  obtain ⟨hnew, hheld, hnot, -⟩ := grants_ledger hgrants
  constructor
  · intro hcrash
    by_cases hafter : ∃ later ∈ after, later.IsCheckpoint
    · exact Or.inl hafter
    · -- the crash finds the checkpoint that stood before the claim
      have hnone : ∀ later ∈ step :: after, ¬ later.IsCheckpoint := by
        intro later hmem hlater
        rcases List.mem_cons.mp hmem with rfl | hmem
        · exact hnot hlater
        · exact hafter ⟨later, hmem, hlater⟩
      obtain ⟨stored, hstored, hkey⟩ := hcrash
      rw [Machine.run_append, run_checkpoint _ hnone] at hstored
      by_cases hbefore : ∃ earlier ∈ before, earlier.IsCheckpoint
      · have hbehind := behind_of_mem hsync hbefore
        exact absurd ((hbehind.extends_checkpoint stored hstored).mem hkey) hnew
      · have hbefore : ∀ earlier ∈ before, ¬ earlier.IsCheckpoint :=
          fun earlier hmem hearlier => hbefore ⟨earlier, hmem, hearlier⟩
        rw [run_checkpoint start hbefore] at hstored
        refine Or.inr ⟨?_, stored, hstored, hkey⟩
        intro other hmem
        rcases List.mem_append.mp hmem with hmem | hmem
        · exact hbefore other hmem
        · exact hnone other hmem
  · intro hchecked
    rcases hchecked with hafter | ⟨hnone, hstart⟩
    · obtain ⟨hsync', -⟩ := run_evolves start before hsync
      obtain ⟨hsync'', -⟩ := step_evolves (machine.run start before) step hsync'
      rw [Machine.run_append, Machine.run_cons]
      exact inCheckpoint_of_later hsync'' hheld hafter
    · unfold InCheckpoint
      rw [run_checkpoint start hnone]
      exact hstart

/-- Resuming loses no claimed side effect exactly when every claim of the crashed
run was followed by a checkpoint before the crash. -/
theorem resume_safe_iff_checkpointed (breaker : ToolCircuitBreaker) (store : RunStore)
    (checkpoint : Option Checkpoint) (history : List String)
    (runId taskId userRequest resumeStatus : String) (steps : List SessionStep)
    (breaker' : ToolCircuitBreaker) (runId' taskId' userRequest' resumeStatus' : String) :
    let start := initializeTurn breaker store checkpoint history runId taskId userRequest
      resumeStatus
    let crashed := machine.run start steps
    crashed.world.store.lookup runId' = none →
    (ResumeSafe start steps
      (crashed.resume breaker' runId' taskId' userRequest' resumeStatus').world ↔
      Checkpointed start steps) := by
  intro start crashed hfresh
  have hsync : start.world.InSync := World.startRun_inSync ..
  constructor
  · intro hsafe before step after key hsplit hgrants
    have hledger := (hsafe before step after key hsplit hgrants).1
    subst hsplit
    exact (inCheckpoint_crash_iff hsync hgrants).mp ((mem_resume_ledger hfresh).mp hledger)
  · intro hchecked before step after key hsplit hgrants
    have hkept := hchecked before step after key hsplit hgrants
    subst hsplit
    have hcrash : InCheckpoint crashed key := (inCheckpoint_crash_iff hsync hgrants).mpr hkept
    have hledger : key ∈
        (crashed.resume breaker' runId' taskId' userRequest' resumeStatus').world.ledger :=
      (mem_resume_ledger hfresh).mpr hcrash
    refine ⟨hledger, ?_⟩
    intro A ctx call env hside hkey
    subst hkey
    obtain ⟨entry, hentry⟩ := Option.isSome_iff_exists.mp (AList.lookup_isSome.mpr hledger)
    exact (ToolContext.execute_of_known hentry (grants_ledger hgrants).2.2.2 hside).1

/-- The files and the session before the first run of the notify task. -/
abbrev notifySession : Session :=
  initializeTurn {} ∅ none [] "run-1" "task-1" "page ops" ""

/-- The loop's order of steps for one tool call, cut off before the checkpoint. -/
def notifyCrash : List SessionStep :=
  [.recordTool "notify", .claim "key-1" "notify" "d" "t0", .runTool,
    .complete "key-1" true
      { toolStatus := .ok, toolErrorCode := .none, toolExecutionSuccess := true
        toolBusinessSuccess := true, toolResultValidationFailed := some false
        toolResultFailureReason := some "", workspaceChanged := false } "t1",
    .recordHistory "sent", .writeTaskState]

theorem notifyCrash_loses_claim :
    ¬ ResumeSafe notifySession notifyCrash
      ((machine.run notifySession notifyCrash).resume {} "run-2" "task-2" "page ops" "").world := by
  intro hsafe
  have hkey := (hsafe [.recordTool "notify"] (.claim "key-1" "notify" "d" "t0") _ "key-1" rfl
    ⟨_, rfl, by decide, by decide⟩).1
  revert hkey
  decide

/-- The same call with its checkpoint taken. -/
theorem notifyCrash_checkpoint_safe :
    (machine.run notifySession (notifyCrash ++ [.createCheckpoint "ckpt_1"])).world.store.lookup
      "run-2" = none ∧
    (ResumeSafe notifySession (notifyCrash ++ [.createCheckpoint "ckpt_1"])
      ((machine.run notifySession (notifyCrash ++ [.createCheckpoint "ckpt_1"])).resume {} "run-2"
        "task-2" "page ops" "").world ↔
      Checkpointed notifySession (notifyCrash ++ [.createCheckpoint "ckpt_1"])) := by
  have hfresh : (machine.run notifySession
      (notifyCrash ++ [.createCheckpoint "ckpt_1"])).world.store.lookup "run-2" = none := by
    decide
  have hiff := resume_safe_iff_checkpointed {} ∅ none [] "run-1" "task-1" "page ops" ""
    (notifyCrash ++ [.createCheckpoint "ckpt_1"]) {} "run-2" "task-2" "page ops" ""
  exact ⟨hfresh, hiff hfresh⟩

end Session
end Runs
end CodeCub

import CodeCub.Cron.Jobs
import CodeCub.Machine.Run

/-!
# Runs of the cron service

`pico/proactive_engine/schedulers/cron/service.py`: the operations of any number of services on
one file.  What an operation does under the lock is one step, and an execution is between the
step that claims it and the step that stores its result.
-/

namespace CodeCub
namespace Cron

open Python

variable {F : Type}

/-! ## Editing the file -/

def CronStore.withJobs (store : CronStore F) (f : CronJob → CronJob) : CronStore F :=
  { store with entries := store.entries.map fun entry => { entry with job := f entry.job } }

/-- Only the first job with `p` is changed. -/
def CronStore.withFirst (store : CronStore F) (p : CronJob → Bool) (f : CronJob → CronJob) :
    Option (CronJob × CronStore F) :=
  (firstWith p store.entries).map fun found =>
    (f found.entry.job, { store with entries := found.replaced (f found.entry.job) })

def CronStore.without (store : CronStore F) (p : CronJob → Bool) : CronStore F :=
  { store with entries := store.entries.filter fun entry => !p entry.job }

/-! ## Claims -/

/-- `_CLAIM_TTL_MS`. -/
def claimTtlMs : ℤ := 30 * 60 * 1000

/-- Some process holds the job. -/
def CronJob.held (now : ℤ) (job : CronJob) : Bool :=
  job.state.claimedByPid.isSome ∧ job.state.claimedAtMs.any fun t => now - t < claimTtlMs

def CronJob.claimed (pid now : ℤ) (job : CronJob) : CronJob :=
  { job with state := { job.state with claimedByPid := some pid, claimedAtMs := some now } }

def CronJob.released (job : CronJob) : CronJob :=
  { job with state := { job.state with claimedByPid := none, claimedAtMs := none } }

def CronJob.claimedBy (pid claimedAt : ℤ) (job : CronJob) : Bool :=
  job.state.claimedByPid = some pid ∧ job.state.claimedAtMs = some claimedAt

/-- What `run_due` claims. -/
def CronJob.isDue (allowed : Option (List Str)) (now : ℤ) (job : CronJob) : Bool :=
  job.enabled ∧ (job.state.nextRunAtMs.any fun t => t ≠ 0 ∧ t ≤ now) ∧
    (allowed.all fun channels => (given job.payload.channel).all fun channel =>
      channel ∈ channels) ∧ ¬ job.held now

/-- The part of `run_due` under its first lock. -/
def claimDue (pid : ℤ) (allowed : Option (List Str)) (now : ℤ) (file : StoreFile F) :
    List CronJob × StoreFile F :=
  let store := loadStore file
  let mine := (store.jobs.filter (CronJob.isDue allowed now)).map (CronJob.claimed pid now)
  if mine = [] then ([], file)
  else
    (mine, saveStore (store.withJobs fun job =>
      if job.isDue allowed now then job.claimed pid now else job))

/-- The part of `run_job` under its first lock. -/
def claimJob (pid : ℤ) (id : Str) (force : Bool) (now : ℤ) (file : StoreFile F) :
    Option (CronJob × StoreFile F) :=
  (firstWith (fun job => job.id = id) (loadStore file).entries).bind fun found =>
    let target := found.entry.job
    if (!force && !target.enabled) || target.state.lastStatus = some .expired ||
        target.state.lastStatus = some .incompatible || target.held now then none
    else
      some (target.claimed pid now,
        saveStore { loadStore file with entries := found.replaced (target.claimed pid now) })

/-! ## Executions -/

/-- How `on_job` ends. -/
inductive Outcome
  | returned
  | raised (text : Str)
  | cancelled

variable (host : Host)

/-- `_execute_job`: `startMs`, `endMs` and `againMs` are the three times it looks at the clock. -/
def executeJob (outcome : Outcome) (startMs endMs againMs : ℤ) (job : CronJob) : CronJob :=
  let finished (status : JobStatus) (error : Option Str) : CronJob :=
    { job with
      state := { job.state with
        lastRunAtMs := some startMs, lastStatus := some status, lastError := error }
      updatedAtMs := endMs }
  let rescheduled (job : CronJob) : CronJob :=
    match job.schedule.kind with
    | .once =>
        { job with
          enabled := job.enabled && job.deleteAfterRun
          state := { job.state with nextRunAtMs := none } }
    | _ =>
        { job with state := { job.state with
            nextRunAtMs :=
              if job.enabled then computeNextRun host job.schedule againMs else none } }
  match outcome with
  | .returned => rescheduled (finished .ok none)
  | .raised text => rescheduled (finished .error (some text))
  | .cancelled => finished .cancelled (some "execution cancelled".toList)

/-- What of a result goes into the record. -/
def CronJob.withResult (result : CronJob) (job : CronJob) : CronJob :=
  { job with
    enabled := result.enabled
    state := { job.state with
      claimedByPid := none
      claimedAtMs := none
      lastRunAtMs := result.state.lastRunAtMs
      lastStatus := result.state.lastStatus
      lastError := result.state.lastError
      nextRunAtMs := result.state.nextRunAtMs }
    updatedAtMs := result.updatedAtMs }

/-- The record goes with the execution. -/
def CronJob.goes (result : CronJob) : Bool :=
  result.schedule.kind = .once ∧ result.deleteAfterRun ∧
    result.state.lastStatus ≠ some .cancelled

/-- `_persist_job_result`. -/
def persistJobResult (pid claimedAt : ℤ) (result : CronJob) (file : StoreFile F) : StoreFile F :=
  match (loadStore file).withFirst
      (fun job => job.id = result.id && job.claimedBy pid claimedAt) (CronJob.withResult result)
    with
  | none => file
  | some (_, store) =>
      saveStore (if result.goes then store.without fun job => job.id = result.id else store)

/-- `_release_claims`. -/
def releaseClaims (ids : List Str) (pid claimedAt : ℤ) (file : StoreFile F) : StoreFile F :=
  let mine (job : CronJob) : Bool := job.id ∈ ids && job.claimedBy pid claimedAt
  if (loadStore file).jobs.any mine then
    saveStore ((loadStore file).withJobs fun job => if mine job then job.released else job)
  else file

/-! ## The public operations -/

/-- The job after a silent fire, and whether this switched it off. -/
def CronJob.silentlyFired (job : CronJob) : CronJob × Bool :=
  let count := job.state.silentFireCount + 1
  let counted := { job with state := { job.state with silentFireCount := count } }
  if job.silentFireLimit.any fun limit => 0 < limit ∧ limit ≤ count then
    ({ counted with enabled := false, state := { counted.state with nextRunAtMs := none } }, true)
  else (counted, false)

def recordSilentFire (id : Str) (file : StoreFile F) : Bool × StoreFile F :=
  match firstWith (fun job => job.id = id) (loadStore file).entries with
  | none => (false, file)
  | some found =>
      let (job, disabled) := found.entry.job.silentlyFired
      (disabled, saveStore { loadStore file with entries := found.replaced job })

/-- What `notify_user_active` resets. -/
def CronJob.countsFor (channel recipient : Option Str) (job : CronJob) : Bool :=
  job.enabled ∧ job.state.silentFireCount ≠ 0 ∧
    (channel = none ∨ job.payload.channel = channel) ∧
    (recipient = none ∨ job.payload.recipient = recipient)

def notifyUserActive (channel recipient : Option Str) (file : StoreFile F) : ℕ × StoreFile F :=
  let store := loadStore file
  let count := store.jobs.countP (CronJob.countsFor channel recipient)
  if count = 0 then (0, file)
  else
    (count, saveStore (store.withJobs fun job =>
      if job.countsFor channel recipient then
        { job with state := { job.state with silentFireCount := 0 } }
      else job))

def removeJob (id : Str) (file : StoreFile F) : Bool × StoreFile F :=
  let store := loadStore file
  let kept := store.without fun job => job.id = id
  if kept.entries.length < store.entries.length then (true, saveStore kept) else (false, file)

/-- The job with the switch in the new position. -/
def CronJob.switched (enabled : Bool) (now : ℤ) (job : CronJob) : CronJob :=
  let next := computeNextRun host job.schedule now
  if enabled then
    if next = none ∧ job.state.lastStatus ≠ some .incompatible then
      { job with
        enabled := false
        state := { job.state with
          nextRunAtMs := none
          lastStatus := some .expired
          lastError := some "schedule has no future fire".toList }
        updatedAtMs := now }
    else
      { job with
        enabled := next ≠ none
        state := { job.state with nextRunAtMs := next }
        updatedAtMs := now }
  else
    { job with
      enabled := false
      state := { job.state with nextRunAtMs := none }
      updatedAtMs := now }

def enableJob (id : Str) (enabled : Bool) (now : ℤ) (file : StoreFile F) :
    Option (CronJob × StoreFile F) :=
  ((loadStore file).withFirst (fun job => job.id = id) (CronJob.switched host enabled now)).map
    fun changed => (changed.1, saveStore changed.2)

/-- `_recompute_next_runs` for one job. -/
def CronJob.recovered (now : ℤ) (job : CronJob) : CronJob :=
  if !job.enabled then job
  else if job.schedule.kind = .once ∧ job.state.lastStatus ∈
      [some .ok, some .error, some .expired, some .incompatible] then
    { job with enabled := false, state := { job.state with nextRunAtMs := none } }
  else if job.schedule.kind = .once ∧ job.schedule.atMs.any fun t => 0 < t then
    { job with state := { job.state with nextRunAtMs := job.schedule.atMs } }
  else
    match computeNextRun host job.schedule now with
    | none =>
        { job with
          enabled := false
          state := { job.state with
            nextRunAtMs := none
            lastStatus := some .expired
            lastError := some "schedule has no future fire".toList }
          updatedAtMs := now }
    | some next =>
        { job with state := { job.state with
            nextRunAtMs := some (job.state.nextRunAtMs.getD next) } }

/-- `start` of a service that has not read the file yet. -/
def start (now : ℤ) (file : StoreFile F) : StoreFile F :=
  saveStore ((loadStore file).withJobs (CronJob.recovered host now))

/-! ## Runs -/

/-- A job between its claim and its result, as it was claimed. -/
structure Execution where
  pid : ℤ
  claimedAt : ℤ
  job : CronJob

/-- The file, and what runs. -/
structure World (F : Type) where
  file : StoreFile F
  running : List Execution

/-- `finish place` is the end of the execution at that place. -/
inductive Operation
  | addJob (newId : Str) (now : ℤ) (request : JobRequest)
  | claimDue (pid : ℤ) (allowed : Option (List Str)) (now : ℤ)
  | claimJob (pid : ℤ) (id : Str) (force : Bool) (now : ℤ)
  | finish (place : ℕ) (outcome : Outcome) (startMs endMs againMs : ℤ)
  | releaseClaims (ids : List Str) (pid claimedAt : ℤ)
  | recordSilentFire (id : Str)
  | notifyUserActive (channel recipient : Option Str)
  | removeJob (id : Str)
  | enableJob (id : Str) (enabled : Bool) (now : ℤ)
  | start (now : ℤ)

inductive Response
  | refused (error : Str)
  | job (job : CronJob)
  | flag (answer : Bool)
  | count (n : ℕ)
  | done

def step (world : World F) : Operation → World F × Response
  | .addJob newId now request =>
      match addJob host newId now request world.file with
      | .ok (job, file) => ({ world with file }, .job job)
      | .error error => (world, .refused error)
  | .claimDue pid allowed now =>
      let (mine, file) := claimDue pid allowed now world.file
      ({ file, running := world.running ++ mine.map fun job => ⟨pid, now, job⟩ }, .done)
  | .claimJob pid id force now =>
      match claimJob pid id force now world.file with
      | some (job, file) =>
          ({ file, running := world.running ++ [⟨pid, now, job⟩] }, .flag true)
      | none => (world, .flag false)
  | .finish place outcome startMs endMs againMs =>
      match world.running[place]? with
      | some execution =>
          let result := executeJob host outcome startMs endMs againMs execution.job
          ({ file := persistJobResult execution.pid execution.claimedAt result world.file
             running := world.running.eraseIdx place }, .done)
      | none => (world, .done)
  | .releaseClaims ids pid claimedAt =>
      ({ world with file := releaseClaims ids pid claimedAt world.file }, .done)
  | .recordSilentFire id =>
      let (disabled, file) := recordSilentFire id world.file
      ({ world with file }, .flag disabled)
  | .notifyUserActive channel recipient =>
      let (count, file) := notifyUserActive channel recipient world.file
      ({ world with file }, .count count)
  | .removeJob id =>
      let (removed, file) := removeJob id world.file
      ({ world with file }, .flag removed)
  | .enableJob id enabled now =>
      match enableJob host id enabled now world.file with
      | some (job, file) => ({ world with file }, .job job)
      | none => (world, .flag false)
  | .start now => ({ world with file := start host now world.file }, .done)

def cronMachine : Machine (World F) Operation Response where
  step := step host

/-! ### The version stays -/

theorem version_addJob {newId : Str} {now : ℤ} {request : JobRequest} {file after : StoreFile F}
    {job : CronJob} (h : addJob host newId now request file = .ok (job, after)) :
    (loadStore after).version = (loadStore file).version := by
  obtain ⟨_, _, hanswer⟩ := addJob_eq_ok host h
  cases hgiven : answer request now (computeNextRun host request.schedule now)
      (loadStore file).entries with
  | topic found =>
      rw [hgiven] at hanswer
      obtain ⟨_, rfl⟩ := Prod.mk.inj hanswer
      exact version_saveStore _
  | message found =>
      rw [hgiven] at hanswer
      obtain ⟨_, rfl⟩ := Prod.mk.inj hanswer
      rfl
  | nearby found =>
      rw [hgiven] at hanswer
      obtain ⟨_, rfl⟩ := Prod.mk.inj hanswer
      rfl
  | schedule found =>
      rw [hgiven] at hanswer
      obtain ⟨_, rfl⟩ := Prod.mk.inj hanswer
      exact version_saveStore _
  | fresh =>
      rw [hgiven] at hanswer
      obtain ⟨_, rfl⟩ := Prod.mk.inj hanswer
      exact version_saveStore _

theorem version_claimDue (pid : ℤ) (allowed : Option (List Str)) (now : ℤ) (file : StoreFile F) :
    (loadStore (claimDue pid allowed now file).2).version = (loadStore file).version := by
  rw [claimDue]
  split
  · rfl
  · exact version_saveStore _

theorem version_claimJob {pid : ℤ} {id : Str} {force : Bool} {now : ℤ}
    {file after : StoreFile F} {job : CronJob}
    (h : claimJob pid id force now file = some (job, after)) :
    (loadStore after).version = (loadStore file).version := by
  rw [claimJob, Option.bind_eq_some_iff] at h
  obtain ⟨found, _, h⟩ := h
  dsimp only at h
  split at h
  · cases h
  · obtain ⟨_, rfl⟩ := Prod.mk.inj (Option.some.inj h)
    exact version_saveStore _

theorem version_persistJobResult (pid claimedAt : ℤ) (result : CronJob) (file : StoreFile F) :
    (loadStore (persistJobResult pid claimedAt result file)).version =
      (loadStore file).version := by
  rw [persistJobResult]
  cases hfirst : (loadStore file).withFirst
      (fun job => job.id = result.id && job.claimedBy pid claimedAt)
      (CronJob.withResult result) with
  | none => rfl
  | some changed =>
      obtain ⟨found, _, rfl⟩ := Option.map_eq_some_iff.mp hfirst
      dsimp only
      rw [version_saveStore]
      split
      · rfl
      · rfl

theorem version_releaseClaims (ids : List Str) (pid claimedAt : ℤ) (file : StoreFile F) :
    (loadStore (releaseClaims ids pid claimedAt file)).version = (loadStore file).version := by
  rw [releaseClaims]
  dsimp only
  split
  · exact version_saveStore _
  · rfl

theorem version_recordSilentFire (id : Str) (file : StoreFile F) :
    (loadStore (recordSilentFire id file).2).version = (loadStore file).version := by
  rw [recordSilentFire]
  split
  · rfl
  · exact version_saveStore _

theorem version_notifyUserActive (channel recipient : Option Str) (file : StoreFile F) :
    (loadStore (notifyUserActive channel recipient file).2).version =
      (loadStore file).version := by
  rw [notifyUserActive]
  dsimp only
  split
  · rfl
  · exact version_saveStore _

theorem version_removeJob (id : Str) (file : StoreFile F) :
    (loadStore (removeJob id file).2).version = (loadStore file).version := by
  rw [removeJob]
  split
  · exact version_saveStore _
  · rfl

theorem version_enableJob {id : Str} {enabled : Bool} {now : ℤ} {file after : StoreFile F}
    {job : CronJob} (h : enableJob host id enabled now file = some (job, after)) :
    (loadStore after).version = (loadStore file).version := by
  obtain ⟨changed, hchanged, hafter⟩ := Option.map_eq_some_iff.mp h
  obtain ⟨found, _, rfl⟩ := Option.map_eq_some_iff.mp hchanged
  obtain ⟨_, rfl⟩ := Prod.mk.inj hafter
  exact version_saveStore _

theorem version_step (world : World F) (operation : Operation) :
    (loadStore ((cronMachine host).next world operation).file).version =
      (loadStore world.file).version := by
  show (loadStore (step host world operation).1.file).version = _
  cases operation with
  | addJob newId now request =>
      rw [step]
      cases hanswer : addJob host newId now request world.file with
      | ok answer => exact version_addJob host hanswer
      | error error => rfl
  | claimDue pid allowed now => exact version_claimDue pid allowed now world.file
  | claimJob pid id force now =>
      rw [step]
      cases hclaim : claimJob pid id force now world.file with
      | some claimed => exact version_claimJob hclaim
      | none => rfl
  | finish place outcome startMs endMs againMs =>
      rw [step]
      cases world.running[place]? with
      | some execution => exact version_persistJobResult _ _ _ _
      | none => rfl
  | releaseClaims ids pid claimedAt => exact version_releaseClaims ids pid claimedAt world.file
  | recordSilentFire id => exact version_recordSilentFire id world.file
  | notifyUserActive channel recipient => exact version_notifyUserActive _ _ world.file
  | removeJob id => exact version_removeJob id world.file
  | enableJob id enabled now =>
      rw [step]
      cases hchanged : enableJob host id enabled now world.file with
      | some changed => exact version_enableJob host hchanged
      | none => rfl
  | start now => exact version_saveStore _

theorem version_run (world : World F) (operations : List Operation) :
    (loadStore ((cronMachine host).run world operations).file).version =
      (loadStore world.file).version := by
  have hkept := Machine.run_preserves (m := cronMachine host)
    (P := fun reached => (loadStore reached.file).version = (loadStore world.file).version)
    (fun reached operation h => (version_step host reached operation).trans h) operations rfl
  exact hkept

/-- In a run on a file of the supported version, a request is refused for its schedule only. -/
theorem run_accepts_iff {world : World F} (hversion : (loadStore world.file).version = 1)
    (operations : List Operation) (newId : Str) (now : ℤ) (request : JobRequest) :
    (∃ job after, addJob host newId now request
        ((cronMachine host).run world operations).file = .ok (job, after)) ↔
      validateScheduleForAdd host request.schedule now = .ok () := by
  have hreached := (version_run host world operations).trans hversion
  rw [addJob_accepts_iff]
  exact and_iff_left hreached

/-! ### Promises -/

/-- An `add_job` that is accepted keeps its promise. -/
def KeepsPromise (world : World F) (operation : Operation) : Prop :=
  ∀ newId now request job, operation = .addJob newId now request →
    (cronMachine host).out world operation = .job job →
    WillFire request now world.file ((cronMachine host).next world operation).file job

/-- An `add_job` that is accepted is not answered with a job that is due, and leaves no second
job of its topic behind. -/
def AsksSafely (world : World F) (operation : Operation) : Prop :=
  ∀ newId now request, operation = .addJob newId now request →
    validateScheduleForAdd host request.schedule now = .ok () →
    (loadStore world.file).version = 1 →
    Unmistaken request now (computeNextRun host request.schedule now)
      (loadStore world.file).entries

theorem step_addJob {newId : Str} {now : ℤ} {request : JobRequest} {world : World F}
    {job : CronJob} {file : StoreFile F}
    (h : addJob host newId now request world.file = .ok (job, file)) :
    (cronMachine host).step world (.addJob newId now request) =
      ({ world with file }, .job job) := by
  show step host world (.addJob newId now request) = _
  rw [step, h]

theorem step_addJob_error {newId : Str} {now : ℤ} {request : JobRequest} {world : World F}
    {error : Str} (h : addJob host newId now request world.file = .error error) :
    (cronMachine host).step world (.addJob newId now request) = (world, .refused error) := by
  show step host world (.addJob newId now request) = _
  rw [step, h]

theorem keepsPromise_iff (world : World F) (operation : Operation) :
    KeepsPromise host world operation ↔ AsksSafely host world operation := by
  constructor
  · intro hkeeps newId now request hadd hvalid hversion
    obtain ⟨job, file, hanswer⟩ := (addJob_accepts_iff host).mpr ⟨hvalid, hversion⟩
    have hstep := step_addJob host hanswer
    have hfires := hkeeps newId now request job hadd
    rw [hadd, Machine.out, Machine.next, hstep] at hfires
    exact (addJob_willFire_iff host hanswer).mp (hfires rfl)
  · intro hasks newId now request job hadd hjob
    rw [hadd, Machine.out] at hjob
    rw [hadd, Machine.next]
    cases hanswer : addJob host newId now request world.file with
    | error error =>
        rw [step_addJob_error host hanswer] at hjob
        cases hjob
    | ok answer =>
        obtain ⟨answered, file⟩ := answer
        rw [step_addJob host hanswer] at hjob ⊢
        obtain rfl := Response.job.inj hjob
        obtain ⟨hvalid, hversion⟩ := (addJob_accepts_iff host).mp ⟨_, _, hanswer⟩
        exact (addJob_willFire_iff host hanswer).mpr
          (hasks newId now request hadd hvalid hversion)

/-- In every run, the accepted requests keep their promises exactly if they ask safely. -/
theorem adds_willFire_iff (world : World F) (operations : List Operation) :
    (cronMachine host).Along (KeepsPromise host) world operations ↔
      (cronMachine host).Along (AsksSafely host) world operations :=
  Machine.along_congr (P := fun _ => True) (fun _ _ _ _ => trivial)
    (fun world operation _ => keepsPromise_iff host world operation) trivial

/-! A reminder is due and runs.  A request for ten minutes later is answered with it. -/

/-- Without cron expressions. -/
def plainHost : Host where
  knownZone := fun _ => false
  cronNext := fun _ _ _ => none

def reminder (message : String) (atMs : ℤ) : JobRequest where
  name := message.toList
  schedule := { kind := .once, atMs := some atMs }
  message := message.toList
  channel := some "feishu".toList
  recipient := some "chat".toList

def firstReminder : Operation := .addJob "job_1".toList 0 (reminder "drink water" 600000)

def runningReminder : World Empty :=
  (cronMachine plainHost).run ⟨.missing, []⟩ [firstReminder, .claimDue 1 none 600000]

theorem snooze_not_stored :
    ¬ ∀ (host : Host) (operations : List Operation) (newId : Str) (now : ℤ)
      (request : JobRequest) (job : CronJob) (after : StoreFile Empty),
      addJob host newId now request
          ((cronMachine host).run ⟨.missing, []⟩ operations).file = .ok (job, after) →
        WillFire request now ((cronMachine host).run ⟨.missing, []⟩ operations).file after job := by
  intro hclaim
  have hlook : (addJob plainHost "job_2".toList 605000 (reminder "snooze" 1205000)
      runningReminder.file).toOption.map (fun answer =>
        (answer.1.schedule.kind, answer.1.state.nextRunAtMs)) =
      some (.once, some 600000) := by decide +kernel
  cases hanswer : addJob plainHost "job_2".toList 605000 (reminder "snooze" 1205000)
      runningReminder.file with
  | error error =>
      rw [hanswer] at hlook
      cases hlook
  | ok answer =>
      obtain ⟨job, after⟩ := answer
      rw [hanswer] at hlook
      obtain ⟨honce, htime⟩ := Prod.mk.inj (Option.some.inj hlook)
      have hright := hclaim plainHost [firstReminder, .claimDue 1 none 600000] "job_2".toList
        605000 (reminder "snooze" 1205000) job after hanswer
      obtain hoften | ⟨next, hnext, hlater⟩ := hright.fires
      · exact hoften honce
      · rw [show job.state.nextRunAtMs = some 600000 from htime, Option.some.injEq] at hnext
        omega

end Cron
end CodeCub

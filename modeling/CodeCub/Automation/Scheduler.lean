import CodeCub.Automation.Jobs
import CodeCub.Machine.Run

/-!
# The scheduler

A tick selects the due jobs and moves them on, all under the lock; then it passes them to
`submit` one by one, and goes back to the lock for each submission that fails.  The job
is moved on before it is submitted: when the next time of one job cannot be computed, or
a failed submission raises once more, the jobs behind it in the batch have been moved on
and are not submitted.
-/

namespace CodeCub
namespace Automation

open Python

/-- The part of the submitted `TurnRequest` that depends on the job. -/
structure CronTurn where
  jobId : String
  message : String
  sessionId : String
  conversationId : String
  deriving DecidableEq, Repr

namespace CronJob

variable {F M : Type} (host : Host F M) (job : CronJob F M) (current : DateTime)

def isAt : Bool :=
  match job.schedule with
  | .at _ => true
  | _ => false

/-- The test of the selection loop; reading the next time may raise. -/
def isDue : Except Raised Bool :=
  if !job.enabled || job.nextRunAt = "" then .ok false
  else do
    let next ← parseDatetime host (.str job.nextRunAt)
    .ok (next ≤ current)

/-- The job is due. -/
def dueNow : Bool := (job.isDue host current).toOption.getD false

/-- What every due job gets before its next time is computed. -/
def stamped : CronJob F M :=
  { job with lastSubmittedAt := current.isoformat, lastError := "" }

/-- A due job is moved on; with the exception that ends the tick. -/
def moveOn : CronJob F M × Option Raised :=
  if job.isAt then
    ({ job.stamped current with enabled := false, status := "completed", nextRunAt := "" }, none)
  else
    match nextAfter host job.schedule current with
    | .ok next => ({ job.stamped current with nextRunAt := next, status := "scheduled" }, none)
    | .error e => (job.stamped current, some e)

/-- `TurnRequest` refuses a blank message. -/
def turn : Except Raised CronTurn :=
  if strip job.message = "" then .error (.valueError "TurnRequest.message must not be empty")
  else
    .ok {
      jobId := job.jobId
      message := job.message
      sessionId := job.sessionId
      conversationId := if job.conversationId = "" then job.sessionId else job.conversationId }

/-- The handler of a failed submission. -/
def failed (interval : F) (error : String) : CronJob F M × Option Raised :=
  let job := { job with lastError := error, status := "submit_failed" }
  if job.isAt then
    match (host.micros interval).bind current.add with
    | some next => ({ job with enabled := true, nextRunAt := next.isoformat }, none)
    | none => ({ job with enabled := true }, some .overflowError)
  else (job, none)

end CronJob

/-- The jobs in memory, and the file. -/
structure Scheduler (F M : Type) where
  table : JobTable F M := {}
  file : StoreFile F M := none

namespace Scheduler

-- `interval` is `tick_interval_seconds`.
variable {F M : Type} (host : Host F M) (interval : F) (s : Scheduler F M)

def save : Scheduler F M := { s with file := saveJobs s.table }

def create (raw : Option (Mapping F M)) (now : DateTime) : Scheduler F M × Option Raised :=
  match fromMapping host raw now with
  | .error e => (s, some e)
  | .ok job =>
      if h : ∀ other ∈ s.table.jobs, other.jobId ≠ job.jobId then
        ({ s with table := s.table.insert job h }.save, none)
      else (s, some (.cronScheduleError ("cron job already exists: " ++ job.jobId)))

def cancel (jobId : String) : Scheduler F M × Option Raised :=
  match s.table.find (strip jobId) with
  | none => (s, some (.keyError jobId))
  | some job =>
      ({ s with table := s.table.assign { job with enabled := false, status := "cancelled" } }.save,
        none)

/-- The jobs that the tick found due, in the order of the table. -/
def due (current : DateTime) : Except Raised (List (CronJob F M)) := do
  let flags ← s.table.jobs.mapM fun job => do
    let flag ← job.isDue host current
    .ok (job, flag)
  .ok ((flags.filter Prod.snd).map Prod.fst)

def dueJobs (current : DateTime) : List (CronJob F M) :=
  s.table.jobs.filter fun job => job.dueNow host current

/-- The loop that moves the due jobs on. -/
def moveAll (current : DateTime) : List (CronJob F M) → JobTable F M → JobTable F M × Option Raised
  | [], table => (table, none)
  | job :: rest, table =>
      if (job.moveOn host current).2.isNone then
        moveAll current rest (table.assign (job.moveOn host current).1)
      else (table.assign (job.moveOn host current).1, (job.moveOn host current).2)

/-- The first critical section of a tick: the due jobs, or the exception. -/
def select (current : DateTime) : Scheduler F M × Except Raised (List (CronJob F M)) :=
  match s.due host current with
  | .error e => (s, .error e)
  | .ok jobs =>
      let moved := moveAll host current jobs s.table
      match moved.2 with
      | some e => ({ s with table := moved.1 }, .error e)
      | none => (if jobs = [] then s else { s with table := moved.1 }.save, .ok jobs)

/-- The critical section after a failed submission. -/
def fail (current : DateTime) (jobId error : String) : Scheduler F M × Option Raised :=
  match s.table.find jobId with
  | none => (s, none)
  | some job =>
      let changed := job.failed host current interval error
      let s := { s with table := s.table.assign changed.1 }
      match changed.2 with
      | some e => (s, some e)
      | none => (s.save, none)

/-- How a call of `submit` ended; `interrupted` is an exception that is no `Exception`. -/
inductive SubmitOutcome where
  | returned
  | failed (error : String)
  | interrupted
  deriving DecidableEq, Repr

/-- What follows a submission: the exception, if one leaves the tick. -/
def settle (current : DateTime) (jobId : String) : SubmitOutcome → Scheduler F M × Option Raised
  | .returned => (s, none)
  | .failed error => s.fail host interval current jobId error
  | .interrupted => (s, some .baseException)

/-- What a tick did: the turns it passed to `submit`, and the exception it ended with. -/
structure TickReport where
  passed : List CronTurn
  raised : Option Raised
  deriving DecidableEq, Repr

/-- The submissions of a tick; `outcomes i` is the outcome of the `i`-th one. -/
def submitAll (current : DateTime) (outcomes : Nat → SubmitOutcome) :
    List (CronJob F M) → Nat → Scheduler F M → Scheduler F M × TickReport
  | [], _, s => (s, { passed := [], raised := none })
  | job :: rest, i, s =>
      match job.turn with
      | .error e => (s, { passed := [], raised := some e })
      | .ok turn =>
          let settled := s.settle host interval current job.jobId (outcomes i)
          match settled.2 with
          | some e => (settled.1, { passed := [turn], raised := some e })
          | none =>
              let after := submitAll current outcomes rest (i + 1) settled.1
              (after.1, { after.2 with passed := turn :: after.2.passed })

def tick (current : DateTime) (outcomes : Nat → SubmitOutcome) : Scheduler F M × TickReport :=
  let selected := s.select host current
  match selected.2 with
  | .error e => (selected.1, { passed := [], raised := some e })
  | .ok jobs => submitAll host interval current outcomes jobs 0 selected.1

/-- A new scheduler on the same file. -/
def restart (now : DateTime) : Scheduler F M × Option Raised :=
  match loadJobs host now s.file with
  | .ok table => ({ table, file := s.file }, none)
  | .error e => (s, some e)

end Scheduler

inductive Call (F M : Type) where
  | create (raw : Option (Mapping F M)) (now : DateTime)
  | cancel (jobId : String)
  | tick (current : DateTime) (outcomes : Nat → Scheduler.SubmitOutcome)
  | restart (now : DateTime)

/-- Calls one after the other; the answer of a call is what it passed to `submit`. -/
def schedulerMachine {F M : Type} (host : Host F M) (interval : F) :
    Machine (Scheduler F M) (Call F M) (List CronTurn) where
  step s
    | .create raw now => ((s.create host raw now).1, [])
    | .cancel jobId => ((s.cancel jobId).1, [])
    | .tick current outcomes =>
        ((s.tick host interval current outcomes).1, (s.tick host interval current outcomes).2.passed)
    | .restart now => ((s.restart host now).1, [])

/-! ## What the operations change -/

section Changes

variable {F M : Type} {host : Host F M} {interval : F} {current : DateTime}

theorem moveOn_jobId (job : CronJob F M) : (job.moveOn host current).1.jobId = job.jobId := by
  rw [CronJob.moveOn]
  split
  · rfl
  · split <;> rfl

theorem moveOn_schedule (job : CronJob F M) :
    (job.moveOn host current).1.schedule = job.schedule := by
  rw [CronJob.moveOn]
  split
  · rfl
  · split <;> rfl

theorem failed_jobId (job : CronJob F M) (error : String) :
    (job.failed host current interval error).1.jobId = job.jobId := by
  simp only [CronJob.failed]
  split
  · split <;> rfl
  · rfl

theorem failed_schedule (job : CronJob F M) (error : String) :
    (job.failed host current interval error).1.schedule = job.schedule := by
  simp only [CronJob.failed]
  split
  · split <;> rfl
  · rfl

variable (host interval current) in
/-- The handler enables a job exactly when it is an `at` job. -/
theorem failed_enabled (job : CronJob F M) (error : String) :
    (job.failed host current interval error).1.enabled = (job.isAt || job.enabled) := by
  simp only [CronJob.failed]
  split
  · next hat =>
      rw [show job.isAt = true from hat]
      split <;> rfl
  · next hat =>
      rw [show job.isAt = false from Bool.eq_false_iff.mpr hat]
      rfl

namespace Scheduler

variable (host interval current) in
theorem fail_table (s : Scheduler F M) {jobId : String} {job : CronJob F M}
    (h : s.table.find jobId = some job) (error : String) :
    (s.fail host interval current jobId error).1.table =
        s.table.assign (job.failed host current interval error).1 ∧
      (s.fail host interval current jobId error).2 = (job.failed host current interval error).2 := by
  rw [fail, h]
  simp only
  cases hraised : (job.failed host current interval error).2 with
  | some e => exact ⟨rfl, rfl⟩
  | none => exact ⟨rfl, rfl⟩

theorem moveAll_find_of_not_mem {jobs : List (CronJob F M)} {table : JobTable F M}
    {jobId : String} (h : jobId ∉ jobs.map CronJob.jobId) :
    (moveAll host current jobs table).1.find jobId = table.find jobId := by
  induction jobs generalizing table with
  | nil => rfl
  | cons job rest ih =>
      rw [List.map_cons, List.mem_cons, not_or] at h
      have hassign := table.find_assign (job.moveOn host current).1 jobId
      rw [moveOn_jobId, if_neg h.1] at hassign
      rw [moveAll]
      split
      · exact (ih h.2).trans hassign
      · exact hassign

/-- The jobs that were found due are jobs of the table, and enabled. -/
theorem enabled_of_due {s : Scheduler F M} {jobs : List (CronJob F M)}
    (h : s.due host current = .ok jobs) {job : CronJob F M} (hjob : job ∈ jobs) :
    job ∈ s.table.jobs ∧ job.enabled = true := by
  obtain ⟨flags, hflags, h⟩ := bind_eq_ok h
  cases h
  obtain ⟨⟨found, flag⟩, hmem, rfl⟩ := List.mem_map.mp hjob
  obtain ⟨hmem, hflag⟩ := List.mem_filter.mp hmem
  obtain ⟨other, hother, hread⟩ := mem_of_mapM_ok hflags hmem
  obtain ⟨value, hvalue, hread⟩ := bind_eq_ok hread
  cases hread
  refine ⟨hother, ?_⟩
  cases henabled : found.enabled with
  | true => rfl
  | false =>
      rw [CronJob.isDue, henabled] at hvalue
      cases hvalue
      cases hflag

end Scheduler

end Changes

/-! ## Every job stays well formed -/

section WellFormed

variable {F M : Type} {host : Host F M} {interval : F}

theorem CronJob.WellFormed.moveOn {job : CronJob F M} (h : job.WellFormed host)
    (current : DateTime) : (job.moveOn host current).1.WellFormed host := by
  unfold CronJob.moveOn
  cases hat : job.isAt with
  | true =>
      have hschedule : ∃ time, job.schedule = .at time := by
        cases hs : job.schedule with
        | «at» time => exact ⟨time, rfl⟩
        | every seconds => simp [CronJob.isAt, hs] at hat
        | cron expression => simp [CronJob.isAt, hs] at hat
      rw [if_pos rfl]
      exact { h with next := Or.inr ⟨rfl, hschedule⟩ }
  | false =>
      rw [if_neg (by decide)]
      cases hnext : nextAfter host job.schedule current with
      | ok next => exact { h with next := Or.inl (nextAfter_isoformat h.schedule hnext) }
      | error e => exact { h with }

variable (interval) in
theorem CronJob.WellFormed.failed {job : CronJob F M} (h : job.WellFormed host)
    (current : DateTime) (error : String) :
    (job.failed host current interval error).1.WellFormed host := by
  simp only [CronJob.failed]
  split
  · split
    · next next _ => exact { h with next := Or.inl ⟨next, rfl⟩ }
    · exact { h with }
  · exact { h with }

def JobTable.WellFormed (host : Host F M) (table : JobTable F M) : Prop :=
  ∀ job ∈ table.jobs, job.WellFormed host

theorem JobTable.WellFormed.assign {table : JobTable F M} {job : CronJob F M}
    (h : table.WellFormed host) (hjob : job.WellFormed host) :
    (table.assign job).WellFormed host := by
  intro other hother
  rcases JobTable.mem_assign hother with rfl | hold
  · exact hjob
  · exact h other hold

theorem JobTable.WellFormed.insert {table : JobTable F M} {job : CronJob F M}
    (h : table.WellFormed host) (hjob : job.WellFormed host)
    (hnew : ∀ other ∈ table.jobs, other.jobId ≠ job.jobId) :
    (table.insert job hnew).WellFormed host := by
  intro other hother
  rcases List.mem_append.mp hother with hold | hlast
  · exact h other hold
  · rw [List.mem_singleton.mp hlast]
    exact hjob

theorem JobTable.WellFormed.put {table : JobTable F M} {job : CronJob F M}
    (h : table.WellFormed host) (hjob : job.WellFormed host) : (table.put job).WellFormed host := by
  rw [JobTable.put]
  split
  · exact h.insert hjob _
  · exact h.assign hjob

theorem loadJobs_wellFormed {file : StoreFile F M} {now : DateTime} {table : JobTable F M}
    (h : loadJobs host now file = .ok table) : table.WellFormed host := by
  cases file with
  | none =>
      cases h
      intro job hjob
      cases hjob
  | some entries =>
      obtain ⟨jobs, hjobs, h⟩ := bind_eq_ok h
      cases h
      have hall : ∀ job ∈ jobs, job.WellFormed host := by
        intro job hjob
        obtain ⟨raw, -, hraw⟩ := mem_of_mapM_ok hjobs hjob
        exact fromMapping_wellFormed hraw
      have hfold : ∀ (jobs : List (CronJob F M)) (table : JobTable F M),
          (∀ job ∈ jobs, job.WellFormed host) → table.WellFormed host →
            (jobs.foldl JobTable.put table).WellFormed host := by
        intro jobs
        induction jobs with
        | nil => exact fun _ _ htable => htable
        | cons job rest ih =>
            intro table hjobs htable
            exact ih _ (fun other hother => hjobs other (List.mem_cons_of_mem _ hother))
              (htable.put (hjobs job List.mem_cons_self))
      refine hfold jobs {} hall ?_
      intro job hjob
      cases hjob

namespace Scheduler

theorem create_wellFormed {s : Scheduler F M} (h : s.table.WellFormed host)
    (raw : Option (Mapping F M)) (now : DateTime) :
    (s.create host raw now).1.table.WellFormed host := by
  rw [create]
  cases hjob : fromMapping host raw now with
  | error e => exact h
  | ok job =>
      simp only
      split
      · next hnew => exact h.insert (fromMapping_wellFormed hjob) hnew
      · exact h

theorem cancel_wellFormed {s : Scheduler F M} (h : s.table.WellFormed host) (jobId : String) :
    (s.cancel jobId).1.table.WellFormed host := by
  rw [cancel]
  cases hfound : s.table.find (strip jobId) with
  | none => exact h
  | some job =>
      have hjob := h job (JobTable.find_eq_some_iff.mp hfound).1
      exact h.assign { hjob with }

theorem moveAll_wellFormed {current : DateTime} {jobs : List (CronJob F M)} {table : JobTable F M}
    (hjobs : ∀ job ∈ jobs, job.WellFormed host) (h : table.WellFormed host) :
    (moveAll host current jobs table).1.WellFormed host := by
  induction jobs generalizing table with
  | nil => exact h
  | cons job rest ih =>
      have hmoved := h.assign ((hjobs job List.mem_cons_self).moveOn current)
      rw [moveAll]
      split
      · exact ih (fun other hother => hjobs other (List.mem_cons_of_mem _ hother)) hmoved
      · exact hmoved

theorem fail_wellFormed {s : Scheduler F M} (h : s.table.WellFormed host) (current : DateTime)
    (jobId error : String) : (s.fail host interval current jobId error).1.table.WellFormed host := by
  rw [fail]
  cases hfound : s.table.find jobId with
  | none => exact h
  | some job =>
      have hjob := h job (JobTable.find_eq_some_iff.mp hfound).1
      have hchanged := h.assign (hjob.failed interval current error)
      simp only
      split
      · exact hchanged
      · exact hchanged

variable (interval) in
theorem settle_wellFormed {s : Scheduler F M} (h : s.table.WellFormed host) (current : DateTime)
    (jobId : String) (outcome : SubmitOutcome) :
    (s.settle host interval current jobId outcome).1.table.WellFormed host := by
  cases outcome with
  | returned => exact h
  | failed error => exact fail_wellFormed h current jobId error
  | interrupted => exact h

/-- Of a well-formed job it can be said whether it is due. -/
theorem isDue_ok {job : CronJob F M} (h : job.WellFormed host) (current : DateTime) :
    job.isDue host current = .ok (job.dueNow host current) := by
  have hsome : ∃ flag, job.isDue host current = .ok flag := by
    rw [CronJob.isDue]
    split
    · exact ⟨_, rfl⟩
    · next hlive =>
        rcases h.next with ⟨next, hnext⟩ | ⟨hempty, -⟩
        · rw [hnext, parseDatetime_isoformat]
          exact ⟨_, rfl⟩
        · simp [hempty] at hlive
  obtain ⟨flag, hflag⟩ := hsome
  rw [CronJob.dueNow, hflag]
  rfl

theorem due_eq {s : Scheduler F M} (h : s.table.WellFormed host) (current : DateTime) :
    s.due host current = .ok (s.dueJobs host current) := by
  have hflags : (s.table.jobs.mapM fun job => do
      let flag ← job.isDue host current
      Except.ok (job, flag)) =
        .ok (s.table.jobs.map fun job => (job, job.dueNow host current)) := by
    rw [← List.map_id s.table.jobs, List.map_map]
    apply mapM_map_ok
    intro job hjob
    rw [id, isDue_ok (h job hjob), ok_bind]
    rfl
  rw [due, hflags, ok_bind, dueJobs, List.filter_map, List.map_map]
  simp [Function.comp_def]

theorem mem_dueJobs {s : Scheduler F M} {current : DateTime} {job : CronJob F M} :
    job ∈ s.dueJobs host current ↔ job ∈ s.table.jobs ∧ job.dueNow host current = true :=
  List.mem_filter

/-- What the selection of a tick does. -/
theorem select_eq {s : Scheduler F M} (h : s.table.WellFormed host) (current : DateTime) :
    (s.select host current).1.table = (moveAll host current (s.dueJobs host current) s.table).1 ∧
      (s.select host current).2 =
        match (moveAll host current (s.dueJobs host current) s.table).2 with
        | some e => .error e
        | none => .ok (s.dueJobs host current) := by
  rw [select, due_eq h]
  simp only
  cases hmoved : (moveAll host current (s.dueJobs host current) s.table).2 with
  | some e => exact ⟨rfl, rfl⟩
  | none =>
      refine ⟨?_, rfl⟩
      simp only
      split
      · next hnone =>
          rw [hnone]
          rfl
      · rfl

theorem select_wellFormed {s : Scheduler F M} (h : s.table.WellFormed host) (current : DateTime) :
    (s.select host current).1.table.WellFormed host := by
  rw [(select_eq h current).1]
  exact moveAll_wellFormed (fun job hjob => h job (mem_dueJobs.mp hjob).1) h

theorem submitAll_wellFormed {current : DateTime} {outcomes : Nat → SubmitOutcome}
    {jobs : List (CronJob F M)} {i : Nat} {s : Scheduler F M} (h : s.table.WellFormed host) :
    (submitAll host interval current outcomes jobs i s).1.table.WellFormed host := by
  induction jobs generalizing i s with
  | nil => exact h
  | cons job rest ih =>
      have hsettled := settle_wellFormed interval h current job.jobId (outcomes i)
      rw [submitAll]
      split
      · exact h
      · simp only
        split
        · exact hsettled
        · exact ih hsettled

theorem tick_wellFormed {s : Scheduler F M} (h : s.table.WellFormed host) (current : DateTime)
    (outcomes : Nat → SubmitOutcome) :
    (s.tick host interval current outcomes).1.table.WellFormed host := by
  have hselected := select_wellFormed h current
  rw [tick]
  split
  · exact hselected
  · exact submitAll_wellFormed hselected

theorem restart_wellFormed {s : Scheduler F M} (h : s.table.WellFormed host) (now : DateTime) :
    (s.restart host now).1.table.WellFormed host := by
  rw [restart]
  cases hload : loadJobs host now s.file with
  | error e => exact h
  | ok table => exact loadJobs_wellFormed hload

variable (interval) in
theorem step_wellFormed {s : Scheduler F M} (call : Call F M) (h : s.table.WellFormed host) :
    ((schedulerMachine host interval).next s call).table.WellFormed host := by
  cases call with
  | create raw now => exact create_wellFormed h raw now
  | cancel jobId => exact cancel_wellFormed h jobId
  | tick current outcomes => exact tick_wellFormed h current outcomes
  | restart now => exact restart_wellFormed h now

variable (host interval) in
/-- Whatever the file holds, and whatever calls are made, the jobs in memory are well
formed. -/
theorem run_wellFormed (file : StoreFile F M) (calls : List (Call F M)) :
    ((schedulerMachine host interval).run { file } calls).table.WellFormed host := by
  refine Machine.run_preserves (m := schedulerMachine host interval)
    (P := fun s => s.table.WellFormed host) ?_ calls ?_
  · intro s call h
    exact step_wellFormed interval call h
  · intro job hjob
    cases hjob

end Scheduler

end WellFormed

/-! ## A host for concrete runs -/

/-- Whole numbers of seconds, and the ASCII digits. -/
def secondsHost : Host Nat Unit where
  decimal c := if c.isDigit then some (c.toNat - 48) else none
  ofInt n := if 0 ≤ n then some n.toNat else none
  ofDecimal l := l.foldl (fun value c => value * 10 + (c.toNat - 48)) 0
  times x n := x * n
  nonpos x := x = 0
  truthy x := x ≠ 0
  text x := toString x ++ ".0"
  micros x := if x < 86400000000000 then some (x * 1000000) else none
  mappingText _ := "\x7b\x7d"

/-- The mapping with these texts. -/
def textMapping (entries : List (String × String)) : Mapping Nat Unit := fun key =>
  (entries.lookup key).map .str

def newYear : DateTime where
  year := 2026
  month := 1
  day := 1
  hour := 0
  minute := 0
  second := 0
  microsecond := 0
  valid := by decide

end Automation
end CodeCub

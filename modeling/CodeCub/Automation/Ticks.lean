import CodeCub.Automation.Scheduler

/-!
# What a tick loses

A tick moves its due jobs on before it submits them.  The jobs that were moved on and not
submitted are `abandoned`: those before the first one whose next time cannot be computed,
or those behind the submission that left the tick.  A tick loses nothing exactly when
moving an abandoned job on changed nothing.
-/

namespace CodeCub
namespace Automation

open Python

variable {F M : Type} (host : Host F M) (interval : F)

namespace CronJob

variable (current : DateTime) (job : CronJob F M)

/-- Moving the job on raises nothing. -/
def computable : Bool := (job.moveOn host current).2.isNone

/-- Moving the job on leaves it due. -/
def Stays : Prop := job.isAt = false ∧ nextAfter host job.schedule current = .ok job.nextRunAt

end CronJob

namespace Scheduler

variable (current : DateTime) (outcomes : Nat → SubmitOutcome)

/-- The tick ends with this submission: with the exception of `submit`, or because there is
no time to try again at. -/
def endsTick (job : CronJob F M) : SubmitOutcome → Bool
  | .returned => false
  | .failed _ => job.isAt && ((host.micros interval).bind current.add).isNone
  | .interrupted => true

/-- How many of the due jobs the submission loop reaches. -/
def reached : List (CronJob F M) → Nat → Nat
  | [], _ => 0
  | job :: rest, i =>
      if endsTick host interval current job (outcomes i) then 1 else reached rest (i + 1) + 1

variable (s : Scheduler F M)

/-- The due jobs that are moved on and not submitted. -/
def abandoned : List (CronJob F M) :=
  let due := s.dueJobs host current
  if due.all (CronJob.computable host current) then
    due.drop (reached host interval current outcomes due 0)
  else due.takeWhile (CronJob.computable host current)

/-- How often the tick passed the job to `submit`. -/
def timesPassed (jobId : String) : Nat :=
  ((s.tick host interval current outcomes).2.passed.map CronTurn.jobId).count jobId

/-- Every due job was passed once, or is still due, or is marked; a job that was not passed
was neither completed nor moved on. -/
def LosesNothing : Prop :=
  ∀ job ∈ s.table.jobs, ∃ later,
    (s.tick host interval current outcomes).1.table.find job.jobId = some later ∧
    (job.dueNow host current = true →
      s.timesPassed host interval current outcomes job.jobId = 1 ∨
        later.dueNow host current = true ∨ later.status = "submit_failed") ∧
    (s.timesPassed host interval current outcomes job.jobId = 0 →
      later.nextRunAt = job.nextRunAt ∧ (later.status = "completed" → job.status = "completed"))

end Scheduler

/-! ## The loop that moves the jobs on -/

section Moving

variable {host} {interval} {current : DateTime}

/-- Without its next time the job is only stamped. -/
theorem moveOn_of_not_computable {job : CronJob F M} (h : job.computable host current = false) :
    (job.moveOn host current).1 = job.stamped current := by
  rw [CronJob.computable] at h
  revert h
  rw [CronJob.moveOn]
  split
  · intro h
    cases h
  · split
    · intro h
      cases h
    · intro _
      rfl

theorem stamped_dueNow (job : CronJob F M) :
    (job.stamped current).dueNow host current = job.dueNow host current := rfl

/-- A due job is still due, after it was moved on, exactly when nothing changed. -/
theorem moveOn_nextRunAt_iff {job : CronJob F M} (hcomputable : job.computable host current = true)
    (hdue : job.dueNow host current = true) :
    (job.moveOn host current).1.nextRunAt = job.nextRunAt ↔ job.Stays host current := by
  have hsome : job.nextRunAt ≠ "" := by
    intro hempty
    simp [CronJob.dueNow, CronJob.isDue, hempty, Except.toOption] at hdue
  rw [CronJob.computable] at hcomputable
  revert hcomputable
  rw [CronJob.moveOn, CronJob.Stays]
  cases hat : job.isAt with
  | true => simp [hsome.symm]
  | false =>
      cases hnext : nextAfter host job.schedule current with
      | ok next => simp
      | error e => simp

theorem moveOn_of_stays {job : CronJob F M} (h : job.Stays host current) :
    (job.moveOn host current).1 = { job.stamped current with status := "scheduled" } := by
  rw [CronJob.moveOn, h.1, h.2]
  rfl

namespace Scheduler

/-- The jobs that the loop changes: up to the first one that raises, and that one. -/
def touched (host : Host F M) (current : DateTime) (jobs : List (CronJob F M)) :
    List (CronJob F M) :=
  jobs.take ((jobs.takeWhile (CronJob.computable host current)).length + 1)

theorem touched_cons (job : CronJob F M) (rest : List (CronJob F M)) :
    touched host current (job :: rest) =
      job :: if job.computable host current = true then touched host current rest else [] := by
  rw [touched, List.takeWhile_cons]
  cases hcomputable : job.computable host current with
  | true => rfl
  | false => rfl

theorem moveAll_cons (job : CronJob F M) (rest : List (CronJob F M)) (table : JobTable F M) :
    moveAll host current (job :: rest) table =
      if job.computable host current = true then
        moveAll host current rest (table.assign (job.moveOn host current).1)
      else (table.assign (job.moveOn host current).1, (job.moveOn host current).2) := rfl

variable (host current) in
theorem moveAll_raised (jobs : List (CronJob F M)) (table : JobTable F M) :
    (moveAll host current jobs table).2.isNone = jobs.all (CronJob.computable host current) := by
  induction jobs generalizing table with
  | nil => rfl
  | cons job rest ih =>
      rw [moveAll_cons, List.all_cons]
      cases hcomputable : job.computable host current with
      | true =>
          rw [if_pos rfl, Bool.true_and]
          exact ih _
      | false =>
          rw [if_neg (by decide), Bool.false_and]
          exact hcomputable

variable (host current) in
/-- The table after the loop, job by job. -/
theorem moveAll_find {jobs : List (CronJob F M)} {table : JobTable F M}
    (hjobs : ∀ job ∈ jobs, job ∈ table.jobs) (hnodup : (jobs.map CronJob.jobId).Nodup)
    (jobId : String) :
    (moveAll host current jobs table).1.find jobId =
      (table.find jobId).map fun job =>
        if jobId ∈ (touched host current jobs).map CronJob.jobId then (job.moveOn host current).1
        else job := by
  induction jobs generalizing table with
  | nil => simp [moveAll, touched]
  | cons job rest ih =>
      rw [List.map_cons, List.nodup_cons] at hnodup
      have hjob := JobTable.find_of_mem (hjobs job List.mem_cons_self)
      -- The table when the loop turns to the rest.
      have hassign := table.find_assign (job.moveOn host current).1
      simp only [moveOn_jobId] at hassign
      have hrest : ∀ other ∈ rest, other ∈ (table.assign (job.moveOn host current).1).jobs := by
        intro other hother
        have hne : other.jobId ≠ job.jobId := by
          intro hsame
          exact hnodup.1 (hsame ▸ List.mem_map_of_mem hother)
        have hfound := hassign other.jobId
        rw [if_neg hne,
          JobTable.find_of_mem (hjobs other (List.mem_cons_of_mem _ hother))] at hfound
        exact (JobTable.find_eq_some_iff.mp hfound).1
      have hnot : job.jobId ∉ (touched host current rest).map CronJob.jobId := by
        intro hmem
        obtain ⟨other, hother, hsame⟩ := List.mem_map.mp hmem
        exact hnodup.1 (hsame ▸ List.mem_map_of_mem (List.mem_of_mem_take hother))
      rw [moveAll_cons, touched_cons]
      by_cases hid : jobId = job.jobId
      · subst hid
        cases hcomputable : job.computable host current with
        | true =>
            rw [if_pos rfl, if_pos rfl, ih hrest hnodup.2, hassign, if_pos rfl, hjob]
            simp [hnot]
        | false =>
            rw [if_neg (by decide), if_neg (by decide), hassign, if_pos rfl, hjob]
            simp
      · cases hcomputable : job.computable host current with
        | true =>
            rw [if_pos rfl, if_pos rfl, ih hrest hnodup.2, hassign, if_neg hid]
            simp [hid]
        | false =>
            rw [if_neg (by decide), if_neg (by decide), hassign, if_neg hid]
            simp [hid]

end Scheduler

end Moving

/-! ## The loop that submits them -/

section Submitting

variable {host} {interval} {current : DateTime} {outcomes : Nat → Scheduler.SubmitOutcome}

theorem failed_raises (job : CronJob F M) (error : String) :
    (job.failed host current interval error).2.isSome =
      Scheduler.endsTick host interval current job (.failed error) := by
  simp only [CronJob.failed, Scheduler.endsTick]
  cases hat : job.isAt with
  | false => simp [CronJob.isAt] at hat ⊢; simp [hat]
  | true =>
      simp [CronJob.isAt] at hat ⊢
      simp only [hat, if_true]
      cases (host.micros interval).bind current.add <;> rfl

theorem isAt_congr {job other : CronJob F M} (h : job.schedule = other.schedule) :
    job.isAt = other.isAt := by
  rw [CronJob.isAt, CronJob.isAt, h]

namespace Scheduler

variable {s : Scheduler F M}

variable (host interval current) in
/-- What follows a submission changes the submitted job only, and not its schedule. -/
theorem settle_find {job found : CronJob F M} (hfound : s.table.find job.jobId = some found)
    (hschedule : found.schedule = job.schedule) (outcome : SubmitOutcome) :
    (∃ later, (s.settle host interval current job.jobId outcome).1.table.find job.jobId =
        some later ∧ later.schedule = job.schedule) ∧
      (∀ jobId, jobId ≠ job.jobId →
        (s.settle host interval current job.jobId outcome).1.table.find jobId =
          s.table.find jobId) ∧
      (s.settle host interval current job.jobId outcome).2.isSome =
        endsTick host interval current job outcome := by
  cases outcome with
  | returned => exact ⟨⟨found, hfound, hschedule⟩, fun _ _ => rfl, rfl⟩
  | interrupted => exact ⟨⟨found, hfound, hschedule⟩, fun _ _ => rfl, rfl⟩
  | failed error =>
      obtain ⟨htable, hraised⟩ := fail_table host interval
        current s hfound error
      have hid : (found.failed host current interval error).1.jobId = job.jobId := by
        rw [failed_jobId, (JobTable.find_eq_some_iff.mp hfound).2]
      have hassign := s.table.find_assign (found.failed host current interval error).1
      rw [hid] at hassign
      rw [settle, htable, hraised]
      refine ⟨⟨(found.failed host current interval error).1, ?_,
        (failed_schedule found error).trans hschedule⟩, ?_, ?_⟩
      · rw [hassign, if_pos rfl, hfound]
        rfl
      · intro jobId hne
        rw [hassign, if_neg hne]
      · rw [failed_raises, endsTick, endsTick, isAt_congr hschedule]

/-- The jobs are in the table, with the schedules with which they were selected. -/
def Present (s : Scheduler F M) (jobs : List (CronJob F M)) : Prop :=
  ∀ job ∈ jobs, ∃ found, s.table.find job.jobId = some found ∧ found.schedule = job.schedule

theorem turn_ok {job : CronJob F M} (h : job.WellFormed host) :
    ∃ turn, job.turn = .ok turn ∧ turn.jobId = job.jobId := by
  have hmessage : ¬ strip job.message = "" := by
    rw [h.message.1]
    exact h.message.2
  rw [CronJob.turn, if_neg hmessage]
  exact ⟨_, rfl, rfl⟩

variable (host interval current outcomes) in
/-- The loop passes the jobs it reaches, and changes no other one. -/
theorem submitAll_spec {jobs : List (CronJob F M)} {i : Nat} {s : Scheduler F M}
    (hwell : ∀ job ∈ jobs, job.WellFormed host) (hpresent : s.Present jobs) :
    (submitAll host interval current outcomes jobs i s).2.passed.map CronTurn.jobId =
        (jobs.take (reached host interval current outcomes jobs i)).map CronJob.jobId ∧
      ∀ jobId found, s.table.find jobId = some found →
        ∃ later, (submitAll host interval current outcomes jobs i s).1.table.find jobId =
            some later ∧
          (jobId ∉ (jobs.take (reached host interval current outcomes jobs i)).map
            CronJob.jobId → later = found) := by
  induction jobs generalizing i s with
  | nil => exact ⟨rfl, fun jobId found hfound => ⟨found, hfound, fun _ => rfl⟩⟩
  | cons job rest ih =>
      obtain ⟨turn, hturn, hturnId⟩ := turn_ok (hwell job List.mem_cons_self)
      obtain ⟨found, hfound, hschedule⟩ := hpresent job List.mem_cons_self
      obtain ⟨⟨settled, hsettled, hsettledSchedule⟩, hothers, hends⟩ := settle_find
        host interval current hfound hschedule (outcomes i)
      -- A job that is in the table stays in it, and only the submitted one changes.
      have hkeep : ∀ jobId old, s.table.find jobId = some old → ∃ new,
          (s.settle host interval current job.jobId (outcomes i)).1.table.find jobId = some new ∧
            (jobId ≠ job.jobId → new = old) := by
        intro jobId old hold
        by_cases hid : jobId = job.jobId
        · subst hid
          exact ⟨settled, hsettled, fun hne => absurd rfl hne⟩
        · exact ⟨old, (hothers jobId hid).trans hold, fun _ => rfl⟩
      rw [submitAll, hturn, reached, ← hends]
      simp only
      cases hraised : (s.settle host interval current job.jobId (outcomes i)).2 with
      | some e =>
          refine ⟨by simp [hturnId], ?_⟩
          intro jobId old hold
          obtain ⟨new, hnew, hsame⟩ := hkeep jobId old hold
          refine ⟨new, hnew, fun hnot => hsame ?_⟩
          simpa using hnot
      | none =>
          have hrest : (s.settle host interval current job.jobId (outcomes i)).1.Present rest := by
            intro other hother
            obtain ⟨old, hold, holdSchedule⟩ := hpresent other (List.mem_cons_of_mem _ hother)
            by_cases hid : other.jobId = job.jobId
            · have hsame : old = found := by
                rw [hid, hfound, Option.some.injEq] at hold
                exact hold.symm
              refine ⟨settled, hid ▸ hsettled, hsettledSchedule.trans ?_⟩
              rw [← hschedule, ← hsame, holdSchedule]
            · exact ⟨old, (hothers _ hid).trans hold, holdSchedule⟩
          obtain ⟨hpassed, hfinds⟩ := ih (i := i + 1)
            (fun other hother => hwell other (List.mem_cons_of_mem _ hother)) hrest
          refine ⟨by simp [hturnId, hpassed], ?_⟩
          intro jobId old hold
          obtain ⟨new, hnew, hsame⟩ := hkeep jobId old hold
          obtain ⟨later, hlater, hsame'⟩ := hfinds jobId new hnew
          refine ⟨later, hlater, ?_⟩
          intro hnot
          simp only [Option.isSome_none, Bool.false_eq_true, if_false, List.take_succ_cons,
            List.map_cons, List.mem_cons, not_or] at hnot
          exact (hsame' hnot.2).trans (hsame hnot.1)

end Scheduler

end Submitting

/-! ## The tick -/

namespace Scheduler

variable {host} {interval} {current : DateTime} {outcomes : Nat → SubmitOutcome}

theorem mem_touched_of_mem_takeWhile {jobs : List (CronJob F M)} {job : CronJob F M}
    (h : job ∈ jobs.takeWhile (CronJob.computable host current)) :
    job ∈ touched host current jobs := by
  rw [touched]
  have htake := List.takeWhile_prefix (l := jobs) (CronJob.computable host current)
  rw [List.prefix_iff_eq_take] at htake
  rw [htake] at h
  exact (List.take_prefix_take_left (Nat.le_succ _)).mem h

/-- Of the jobs that the loop changes only the last one can be one that raised. -/
theorem mem_takeWhile_of_mem_touched {jobs : List (CronJob F M)} {job : CronJob F M}
    (h : job ∈ touched host current jobs) (hcomputable : job.computable host current = true) :
    job ∈ jobs.takeWhile (CronJob.computable host current) := by
  induction jobs with
  | nil => cases h
  | cons first rest ih =>
      rw [touched_cons] at h
      rw [List.takeWhile_cons]
      by_cases hfirst : first.computable host current = true
      · rw [if_pos hfirst] at h ⊢
        rcases List.mem_cons.mp h with rfl | h
        · exact List.mem_cons_self
        · exact List.mem_cons_of_mem _ (ih h)
      · rw [if_neg hfirst, List.mem_singleton] at h
        exact absurd (h ▸ hcomputable) hfirst

theorem touched_of_all {jobs : List (CronJob F M)}
    (h : jobs.all (CronJob.computable host current) = true) : touched host current jobs = jobs := by
  rw [touched, List.takeWhile_eq_self_iff.mpr (List.all_eq_true.mp h)]
  exact List.take_of_length_le (Nat.le_succ _)

variable (host current) in
theorem dueJobs_nodup (s : Scheduler F M) : ((s.dueJobs host current).map CronJob.jobId).Nodup :=
  s.table.nodup.sublist (List.Sublist.map _ List.filter_sublist)

/-- The jobs that the tick passes to `submit`. -/
def passedJobs (host : Host F M) (interval : F) (current : DateTime)
    (outcomes : Nat → SubmitOutcome) (s : Scheduler F M) : List (CronJob F M) :=
  let due := s.dueJobs host current
  if due.all (CronJob.computable host current) then
    due.take (reached host interval current outcomes due 0)
  else []

theorem passedJobs_sublist (s : Scheduler F M) :
    (passedJobs host interval current outcomes s).Sublist (s.dueJobs host current) := by
  simp only [passedJobs]
  split
  · exact List.take_sublist _ _
  · exact List.nil_sublist _

theorem mem_abandoned {s : Scheduler F M} {job : CronJob F M}
    (h : job ∈ s.abandoned host interval current outcomes) :
    job ∈ s.dueJobs host current ∧ job.computable host current = true ∧
      job.jobId ∉ (passedJobs host interval current outcomes s).map CronJob.jobId := by
  simp only [abandoned] at h
  simp only [passedJobs]
  split at h
  · next hall =>
      have hdue := List.mem_of_mem_drop h
      refine ⟨hdue, List.all_eq_true.mp hall job hdue, ?_⟩
      rw [if_pos hall]
      have hnodup := dueJobs_nodup host current s
      rw [← List.take_append_drop (reached host interval current outcomes
        (s.dueJobs host current) 0) (s.dueJobs host current), List.map_append,
        List.nodup_append] at hnodup
      exact fun hmem => hnodup.2.2 _ hmem _ (List.mem_map_of_mem h) rfl
  · next hall =>
      refine ⟨(List.takeWhile_sublist _).mem h, List.mem_takeWhile_imp h, ?_⟩
      rw [if_neg hall]
      exact List.not_mem_nil

variable (interval current outcomes) in
/-- What a tick passes to `submit`, and what it makes of the other jobs. -/
theorem tick_spec {s : Scheduler F M} (hwell : s.table.WellFormed host) :
    (s.tick host interval current outcomes).2.passed.map CronTurn.jobId =
        (passedJobs host interval current outcomes s).map CronJob.jobId ∧
      ∀ job ∈ s.table.jobs, ∃ later,
        (s.tick host interval current outcomes).1.table.find job.jobId = some later ∧
        (job ∈ s.abandoned host interval current outcomes →
          later = (job.moveOn host current).1) ∧
        (job ∉ s.abandoned host interval current outcomes →
          job.jobId ∉ (passedJobs host interval current outcomes s).map CronJob.jobId →
            later = job ∨ later = job.stamped current) := by
  obtain ⟨htable, hresult⟩ := select_eq hwell current
  have hmem : ∀ job ∈ s.dueJobs host current, job ∈ s.table.jobs := fun job hjob =>
    (mem_dueJobs.mp hjob).1
  have hfind := moveAll_find host current hmem (dueJobs_nodup host current s)
  have hraised := moveAll_raised host current (s.dueJobs host current)
    s.table
  rw [← htable] at hfind
  rw [tick, hresult]
  cases hmoved : (moveAll host current (s.dueJobs host current) s.table).2 with
  | some e =>
      rw [hmoved, Option.isNone_some] at hraised
      have hall : ¬ (s.dueJobs host current).all (CronJob.computable host current) = true := by
        rw [← hraised]
        decide
      refine ⟨by simp [passedJobs, hall], ?_⟩
      intro job hjob
      refine ⟨_, (hfind job.jobId).trans (by rw [JobTable.find_of_mem hjob]; rfl), ?_, ?_⟩
      · intro hab
        rw [abandoned, if_neg hall] at hab
        exact if_pos (List.mem_map_of_mem (mem_touched_of_mem_takeWhile hab))
      · intro hab _
        rw [abandoned, if_neg hall] at hab
        split
        · next htouched =>
            obtain ⟨other, hother, hid⟩ := List.mem_map.mp htouched
            have hsame := List.inj_on_of_nodup_map s.table.nodup
              (hmem other (List.mem_of_mem_take hother)) hjob hid
            rw [hsame] at hother
            cases hcomputable : job.computable host current with
            | true => exact absurd (mem_takeWhile_of_mem_touched hother hcomputable) hab
            | false => exact Or.inr (moveOn_of_not_computable hcomputable)
        · exact Or.inl rfl
  | none =>
      rw [hmoved, Option.isNone_none] at hraised
      have hall := hraised.symm
      rw [touched_of_all hall] at hfind
      have hpresent : (s.select host current).1.Present (s.dueJobs host current) := by
        intro job hjob
        refine ⟨(job.moveOn host current).1, ?_, moveOn_schedule job⟩
        rw [hfind, JobTable.find_of_mem (hmem job hjob), Option.map_some,
          if_pos (List.mem_map_of_mem hjob)]
      obtain ⟨hpassed, hfinds⟩ := submitAll_spec host interval current
        outcomes (i := 0)
        (fun job hjob => hwell job (hmem job hjob)) hpresent
      have hpassedJobs : passedJobs host interval current outcomes s =
          (s.dueJobs host current).take
            (reached host interval current outcomes (s.dueJobs host current) 0) := if_pos hall
      rw [hpassedJobs]
      refine ⟨hpassed, ?_⟩
      intro job hjob
      obtain ⟨later, hlater, hsame⟩ := hfinds job.jobId _
        ((hfind job.jobId).trans (by rw [JobTable.find_of_mem hjob]; rfl))
      refine ⟨later, hlater, ?_, ?_⟩
      · intro hab
        obtain ⟨hdue, -, hnot⟩ := mem_abandoned hab
        rw [hpassedJobs] at hnot
        exact (hsame hnot).trans (if_pos (List.mem_map_of_mem hdue))
      · intro hab hnot
        refine Or.inl ((hsame hnot).trans (if_neg ?_))
        intro hdue
        obtain ⟨other, hother, hid⟩ := List.mem_map.mp hdue
        have hsameJob := List.inj_on_of_nodup_map s.table.nodup (hmem other hother) hjob hid
        rw [hsameJob] at hother
        rw [abandoned, if_pos hall] at hab
        rw [← List.take_append_drop (reached host interval current outcomes
          (s.dueJobs host current) 0) (s.dueJobs host current)] at hother
        rcases List.mem_append.mp hother with htake | hdrop
        · exact hnot (List.mem_map_of_mem htake)
        · exact hab hdrop

/-- The jobs that were moved on without a submission are those that a tick can lose. -/
theorem losesNothing_iff {s : Scheduler F M} (hwell : s.table.WellFormed host) :
    s.LosesNothing host interval current outcomes ↔
      ∀ job ∈ s.abandoned host interval current outcomes, job.Stays host current := by
  obtain ⟨hpassed, htable⟩ := tick_spec interval current
    outcomes hwell
  have hcount : ∀ jobId, s.timesPassed host interval current outcomes jobId =
      ((passedJobs host interval current outcomes s).map CronJob.jobId).count jobId := by
    intro jobId
    rw [timesPassed, hpassed]
  constructor
  · intro h job hab
    obtain ⟨hdue, hcomputable, hnot⟩ := mem_abandoned hab
    have hjob := mem_dueJobs.mp hdue
    obtain ⟨later, hlater, -, hkept⟩ := h job hjob.1
    obtain ⟨moved, hmoved, heq, -⟩ := htable job hjob.1
    have hsame : later = moved := Option.some.inj (hlater.symm.trans hmoved)
    rw [← moveOn_nextRunAt_iff hcomputable hjob.2, ← heq hab, ← hsame]
    exact (hkept (by rw [hcount, List.count_eq_zero_of_not_mem hnot])).1
  · intro h job hjob
    obtain ⟨later, hlater, habandoned, hother⟩ := htable job hjob
    refine ⟨later, hlater, ?_, ?_⟩
    · intro hdue
      by_cases hin : job.jobId ∈ (passedJobs host interval current outcomes s).map CronJob.jobId
      · left
        rw [hcount]
        exact List.count_eq_one_of_mem
          ((dueJobs_nodup host current s).sublist ((passedJobs_sublist s).map _)) hin
      · right
        left
        by_cases hab : job ∈ s.abandoned host interval current outcomes
        · rw [habandoned hab, moveOn_of_stays (h job hab)]
          exact hdue
        · rcases hother hab hin with rfl | rfl
          · exact hdue
          · exact hdue
    · intro hzero
      rw [hcount, List.count_eq_zero] at hzero
      by_cases hab : job ∈ s.abandoned host interval current outcomes
      · rw [habandoned hab, moveOn_of_stays (h job hab)]
        refine ⟨rfl, fun hcompleted => ?_⟩
        exact absurd hcompleted (show ¬ "scheduled" = "completed" by decide)
      · rcases hother hab hzero with rfl | rfl
        · exact ⟨rfl, id⟩
        · exact ⟨rfl, id⟩

/-- A job for the new year, and one for the 31 February that starts at the same time. -/
def newYearCalls : List (Call Nat Unit) :=
  [.create (some (textMapping [("id", "once"), ("session_id", "s"), ("message", "m"),
      ("at", "2026-01-01T00:00:00Z")])) newYear,
    .create (some (textMapping [("id", "never"), ("session_id", "s"), ("message", "m"),
      ("cron", "0 0 31 2 *"), ("next_run_at", "2026-01-01T00:00:00Z")])) newYear]

def onceJob : CronJob Nat Unit where
  jobId := "once"
  sessionId := "s"
  message := "m"
  schedule := .at "2026-01-01T00:00:00+00:00"
  conversationId := "s"
  nextRunAt := "2026-01-01T00:00:00+00:00"

def neverJob : CronJob Nat Unit where
  jobId := "never"
  sessionId := "s"
  message := "m"
  schedule := .cron "0 0 31 2 *"
  conversationId := "s"
  nextRunAt := "2026-01-01T00:00:00+00:00"

theorem newYearCalls_due :
    ((schedulerMachine secondsHost 1).run {} newYearCalls).dueJobs secondsHost newYear =
      [onceJob, neverJob] := by decide +kernel

theorem neverJob_not_computable : neverJob.computable secondsHost newYear = false := by
  have hparse : parseCron secondsHost "0 0 31 2 *" =
      .ok { minute := [0], hour := [0], day := [31], month := [2],
            weekday := [0, 1, 2, 3, 4, 5, 6] } := by
    rfl
  have hraises := cronNext_raises secondsHost newYear hparse (by
    rintro d ⟨-, -, hday, hmonth, -⟩
    obtain ⟨-, -, ⟨-, hlast⟩, -⟩ := d.valid
    rw [List.mem_singleton] at hday hmonth
    rw [hday, hmonth, daysInMonth, if_pos rfl] at hlast
    split at hlast <;> omega)
  obtain ⟨e, he⟩ := hraises
  have hnext : nextAfter secondsHost neverJob.schedule newYear = .error e := by
    rw [neverJob, nextAfter, he]
    rfl
  rw [CronJob.computable, CronJob.moveOn, if_neg (by decide), hnext]
  rfl

end Scheduler

end Automation
end CodeCub

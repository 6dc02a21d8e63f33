import CodeCub.Automation.Ticks
import Mathlib.Data.List.Forall2

/-!
# Restarting the scheduler

A scheduler that is loaded from a saved store submits what the one that saved it submits,
whatever is called on the two.  The two differ in the next times of jobs that are disabled,
which nothing reads.  They differ in more after a failed submission had no time to try
again at: the job is then enabled without a next time, and loading gives it its old one.
-/

namespace CodeCub
namespace Automation

open Python

variable {F M : Type} {host : Host F M} {interval : F} {current : DateTime}

/-- Jobs that will be submitted alike.  The next times may differ while the jobs are
disabled, unless they belong to the batch of a running tick. -/
structure JobSim (batch : List String) (a b : CronJob F M) : Prop where
  id : a.jobId = b.jobId
  session : a.sessionId = b.sessionId
  message : a.message = b.message
  conversation : (if a.conversationId = "" then a.sessionId else a.conversationId) =
    if b.conversationId = "" then b.sessionId else b.conversationId
  schedule : a.schedule = b.schedule
  enabled : a.enabled = b.enabled
  next : a.enabled = true ∨ a.jobId ∈ batch → a.nextRunAt = b.nextRunAt

namespace JobSim

variable {batch : List String} {a b : CronJob F M}

theorem dueNow_eq (h : JobSim batch a b) (current : DateTime) :
    a.dueNow host current = b.dueNow host current := by
  rw [CronJob.dueNow, CronJob.dueNow, CronJob.isDue, CronJob.isDue, ← h.enabled]
  cases henabled : a.enabled with
  | false => simp only [Bool.not_false, Bool.true_or, if_true]
  | true => rw [h.next (Or.inl henabled)]

theorem turn_eq (h : JobSim batch a b) : a.turn = b.turn := by
  rw [CronJob.turn, CronJob.turn, h.message, h.id, h.conversation, h.session]

theorem isAt_eq (h : JobSim batch a b) : a.isAt = b.isAt := isAt_congr h.schedule

variable (host) in
theorem moveOn (h : JobSim batch a b) (hin : a.jobId ∈ batch) (current : DateTime) :
    JobSim batch (a.moveOn host current).1 (b.moveOn host current).1 ∧
      (a.moveOn host current).2 = (b.moveOn host current).2 := by
  have hnext := h.next (Or.inr hin)
  rw [CronJob.moveOn, CronJob.moveOn, ← h.isAt_eq, ← h.schedule]
  cases hat : a.isAt with
  | true =>
      rw [if_pos rfl, if_pos rfl]
      exact ⟨{ h with enabled := rfl, next := fun _ => rfl }, rfl⟩
  | false =>
      rw [if_neg Bool.false_ne_true, if_neg Bool.false_ne_true]
      cases nextAfter host a.schedule current with
      | ok next => exact ⟨{ h with next := fun _ => rfl }, rfl⟩
      | error e => exact ⟨{ h with next := fun _ => hnext }, rfl⟩

variable (host interval) in
theorem failed (h : JobSim batch a b) (hin : a.jobId ∈ batch) (current : DateTime)
    (error : String) :
    JobSim batch (a.failed host current interval error).1 (b.failed host current interval error).1 ∧
      (a.failed host current interval error).2 = (b.failed host current interval error).2 := by
  have hnext := h.next (Or.inr hin)
  have hat : CronJob.isAt { a with lastError := error, status := "submit_failed" } =
      CronJob.isAt { b with lastError := error, status := "submit_failed" } := h.isAt_eq
  simp only [CronJob.failed, ← hat]
  split
  · split
    · exact ⟨{ h with enabled := rfl, next := fun _ => rfl }, rfl⟩
    · exact ⟨{ h with enabled := rfl, next := fun _ => hnext }, rfl⟩
  · exact ⟨{ h with next := fun _ => hnext }, rfl⟩

end JobSim

/-- The jobs of the two tables, one by one. -/
def TableSim (batch : List String) (a b : JobTable F M) : Prop :=
  List.Forall₂ (JobSim batch) a.jobs b.jobs

namespace TableSim

variable {batch : List String} {a b : JobTable F M}

theorem assign (h : TableSim batch a b) {job other : CronJob F M} (hjob : JobSim batch job other) :
    TableSim batch (a.assign job) (b.assign other) := by
  rw [TableSim, JobTable.assign, JobTable.assign, JobTable.update, JobTable.update,
    List.forall₂_map_left_iff, List.forall₂_map_right_iff]
  apply h.imp
  intro x y hxy
  rw [← hxy.id, ← hjob.id]
  split
  · exact hjob
  · exact hxy

theorem find (h : TableSim batch a b) (jobId : String) :
    (a.find jobId = none ∧ b.find jobId = none) ∨
      ∃ job other, a.find jobId = some job ∧ b.find jobId = some other ∧
        JobSim batch job other := by
  rw [JobTable.find, JobTable.find]
  rw [TableSim] at h
  revert h
  generalize a.jobs = xs
  generalize b.jobs = ys
  intro h
  induction h with
  | nil => exact Or.inl ⟨rfl, rfl⟩
  | @cons x y xs ys hxy _ ih =>
      rw [List.find?_cons, List.find?_cons, ← hxy.id]
      by_cases hid : x.jobId = jobId
      · rw [decide_eq_true hid]
        exact Or.inr ⟨x, y, rfl, rfl, hxy⟩
      · rw [decide_eq_false hid]
        exact ih

theorem ids_eq (h : TableSim batch a b) : a.jobs.map CronJob.jobId = b.jobs.map CronJob.jobId := by
  rw [← List.forall₂_eq_eq_eq, List.forall₂_map_left_iff, List.forall₂_map_right_iff]
  exact h.imp fun _ _ hxy => hxy.id

theorem weaken (h : TableSim batch a b) : TableSim [] a b := by
  apply List.Forall₂.imp _ h
  intro x y hxy
  refine { hxy with next := ?_ }
  rintro (henabled | hin)
  · exact hxy.next (Or.inl henabled)
  · cases hin

/-- Jobs that are enabled may be made a batch. -/
theorem strengthen (h : TableSim [] a b)
    (hbatch : ∀ job ∈ a.jobs, job.jobId ∈ batch → job.enabled = true) : TableSim batch a b := by
  have hboth := (List.forall₂_and_left _ _).mpr ⟨hbatch, h⟩
  apply List.Forall₂.imp _ hboth
  rintro x y ⟨henabled, hxy⟩
  refine { hxy with next := ?_ }
  rintro (hx | hin)
  · exact hxy.next (Or.inl hx)
  · exact hxy.next (Or.inl (henabled hin))

end TableSim

namespace Scheduler

variable {batch : List String}

variable (host current) in
theorem moveAll_sim {jobs others : List (CronJob F M)} {a b : JobTable F M}
    (hjobs : List.Forall₂ (JobSim batch) jobs others) (hin : ∀ job ∈ jobs, job.jobId ∈ batch)
    (h : TableSim batch a b) :
    TableSim batch (moveAll host current jobs a).1 (moveAll host current others b).1 ∧
      (moveAll host current jobs a).2 = (moveAll host current others b).2 := by
  induction hjobs generalizing a b with
  | nil => exact ⟨h, rfl⟩
  | @cons x y xs ys hxy _ ih =>
      obtain ⟨hmoved, hraised⟩ := hxy.moveOn host (hin x List.mem_cons_self) current
      rw [moveAll, moveAll, hraised]
      split
      · exact ih (fun job hjob => hin job (List.mem_cons_of_mem _ hjob)) (h.assign hmoved)
      · exact ⟨h.assign hmoved, rfl⟩

variable (host interval current) in
theorem settle_sim {s t : Scheduler F M} (h : TableSim batch s.table t.table) {jobId : String}
    (hin : jobId ∈ batch) (outcome : SubmitOutcome) :
    TableSim batch (s.settle host interval current jobId outcome).1.table
        (t.settle host interval current jobId outcome).1.table ∧
      (s.settle host interval current jobId outcome).2 =
        (t.settle host interval current jobId outcome).2 := by
  cases outcome with
  | returned => exact ⟨h, rfl⟩
  | interrupted => exact ⟨h, rfl⟩
  | failed error =>
      rw [settle, settle]
      rcases h.find jobId with ⟨hnone, hnone'⟩ | ⟨job, other, hjob, hother, hsim⟩
      · rw [fail, fail, hnone, hnone']
        exact ⟨h, rfl⟩
      · have hid := (JobTable.find_eq_some_iff.mp hjob).2
        obtain ⟨hfailed, hraised⟩ := hsim.failed host interval
          (hid ▸ hin) current error
        obtain ⟨htable, hresult⟩ := fail_table host interval
          current s hjob error
        obtain ⟨htable', hresult'⟩ := fail_table host interval
          current t hother error
        rw [htable, htable', hresult, hresult']
        exact ⟨h.assign hfailed, hraised⟩

variable (host interval current) in
theorem submitAll_sim (outcomes : Nat → SubmitOutcome)
    {jobs others : List (CronJob F M)} {s t : Scheduler F M} (i : Nat) (hjobs : List.Forall₂ (JobSim batch) jobs others)
    (hin : ∀ job ∈ jobs, job.jobId ∈ batch) (h : TableSim batch s.table t.table) :
    TableSim batch (submitAll host interval current outcomes jobs i s).1.table
        (submitAll host interval current outcomes others i t).1.table ∧
      (submitAll host interval current outcomes jobs i s).2 =
        (submitAll host interval current outcomes others i t).2 := by
  induction hjobs generalizing i s t with
  | nil => exact ⟨h, rfl⟩
  | @cons x y xs ys hxy _ ih =>
      obtain ⟨hsettled, hraised⟩ := settle_sim host interval
        current h (hin x List.mem_cons_self) (outcomes i)
      rw [submitAll, submitAll, ← hxy.turn_eq, ← hxy.id]
      cases x.turn with
      | error e => exact ⟨h, rfl⟩
      | ok turn =>
          simp only [← hraised]
          cases (s.settle host interval current x.jobId (outcomes i)).2 with
          | some e => exact ⟨hsettled, rfl⟩
          | none =>
              obtain ⟨htables, hreports⟩ := ih (i + 1)
                (fun job hjob => hin job (List.mem_cons_of_mem _ hjob)) hsettled
              exact ⟨htables, by rw [hreports]⟩

/-- Two schedulers that no call tells apart by what is submitted. -/
structure Alike (host : Host F M) (s t : Scheduler F M) : Prop where
  left : s.table.WellFormed host
  right : t.table.WellFormed host
  tables : TableSim [] s.table t.table

variable (host) in
theorem dueJobs_sim {s t : Scheduler F M} (h : TableSim [] s.table t.table) (current : DateTime) :
    let due := s.dueJobs host current
    TableSim (due.map CronJob.jobId) s.table t.table ∧
      List.Forall₂ (JobSim (due.map CronJob.jobId)) due (t.dueJobs host current) := by
  have htables : TableSim ((s.dueJobs host current).map CronJob.jobId) s.table t.table := by
    apply h.strengthen
    intro job hjob hdue
    obtain ⟨other, hother, hid⟩ := List.mem_map.mp hdue
    obtain ⟨hmem, hnow⟩ := mem_dueJobs.mp hother
    have hsame := List.inj_on_of_nodup_map s.table.nodup hmem hjob hid
    rw [hsame] at hnow
    cases henabled : job.enabled with
    | true => rfl
    | false => simp [CronJob.dueNow, CronJob.isDue, henabled, Except.toOption] at hnow
  refine ⟨htables, List.rel_filter ?_ htables⟩
  intro x y hxy
  show x.dueNow host current = true ↔ y.dueNow host current = true
  rw [hxy.dueNow_eq current]

variable (interval) in
theorem tick_sim {s t : Scheduler F M} (h : s.Alike host t) (current : DateTime)
    (outcomes : Nat → SubmitOutcome) :
    TableSim [] (s.tick host interval current outcomes).1.table
        (t.tick host interval current outcomes).1.table ∧
      (s.tick host interval current outcomes).2 = (t.tick host interval current outcomes).2 := by
  obtain ⟨htables, hdue⟩ := dueJobs_sim host h.tables current
  have hin : ∀ job ∈ s.dueJobs host current, job.jobId ∈
      (s.dueJobs host current).map CronJob.jobId := fun job hjob => List.mem_map_of_mem hjob
  obtain ⟨hmoved, hraised⟩ := moveAll_sim host current hdue hin htables
  obtain ⟨hs, hs'⟩ := select_eq h.left current
  obtain ⟨ht, ht'⟩ := select_eq h.right current
  rw [← hs, ← ht] at hmoved
  rw [tick, tick, hs', ht', ← hraised]
  cases (moveAll host current (s.dueJobs host current) s.table).2 with
  | some e => exact ⟨hmoved.weaken, rfl⟩
  | none =>
      obtain ⟨hfinal, hreport⟩ := submitAll_sim host interval
        current outcomes 0 hdue hin hmoved
      exact ⟨hfinal.weaken, hreport⟩

theorem create_sim {s t : Scheduler F M} (h : TableSim [] s.table t.table)
    (raw : Option (Mapping F M)) (now : DateTime) :
    TableSim [] (s.create host raw now).1.table (t.create host raw now).1.table := by
  rw [create, create]
  cases fromMapping host raw now with
  | error e => exact h
  | ok job =>
      have hids := h.ids_eq
      have hnew : (∀ other ∈ s.table.jobs, other.jobId ≠ job.jobId) ↔
          ∀ other ∈ t.table.jobs, other.jobId ≠ job.jobId := by
        rw [← List.forall_mem_map (P := fun id => id ≠ job.jobId), hids, List.forall_mem_map]
      by_cases hfresh : ∀ other ∈ s.table.jobs, other.jobId ≠ job.jobId
      · simp only [dif_pos hfresh, dif_pos (hnew.mp hfresh)]
        refine List.rel_append h (List.Forall₂.cons ?_ List.Forall₂.nil)
        exact ⟨rfl, rfl, rfl, rfl, rfl, rfl, fun _ => rfl⟩
      · simp only [dif_neg hfresh, dif_neg (mt hnew.mpr hfresh)]
        exact h

theorem cancel_sim {s t : Scheduler F M} (h : TableSim [] s.table t.table) (jobId : String) :
    TableSim [] (s.cancel jobId).1.table (t.cancel jobId).1.table := by
  rw [cancel, cancel]
  rcases h.find (strip jobId) with ⟨hnone, hnone'⟩ | ⟨job, other, hjob, hother, hsim⟩
  · rw [hnone, hnone']
    exact h
  · rw [hjob, hother]
    apply h.assign
    refine { hsim with enabled := rfl, next := ?_ }
    rintro (henabled | hin)
    · cases henabled
    · cases hin

end Scheduler

/-- The calls that are made on one scheduler. -/
def Call.Later : Call F M → Prop
  | .restart _ => False
  | _ => True

namespace Scheduler

theorem step_alike {s t : Scheduler F M} (call : Call F M) (h : s.Alike host t)
    (hlater : call.Later) :
    (schedulerMachine host interval).out s call = (schedulerMachine host interval).out t call ∧
      ((schedulerMachine host interval).next s call).Alike host
        ((schedulerMachine host interval).next t call) := by
  have hleft := step_wellFormed interval call h.left
  have hright := step_wellFormed interval call h.right
  cases call with
  | create raw now => exact ⟨rfl, hleft, hright, create_sim h.tables raw now⟩
  | cancel jobId => exact ⟨rfl, hleft, hright, cancel_sim h.tables jobId⟩
  | tick current outcomes =>
      obtain ⟨htables, hreport⟩ := tick_sim interval h current outcomes
      exact ⟨congrArg TickReport.passed hreport, hleft, hright, htables⟩
  | restart now => exact hlater.elim

/-! ## The restarted scheduler -/

theorem restart_table {s : Scheduler F M} (hwell : s.table.WellFormed host)
    (hsaved : s.file = saveJobs s.table) (now : DateTime) :
    (s.restart host now).1.table.jobs = s.table.jobs.map CronJob.restored := by
  obtain ⟨loaded, hloaded, hjobs⟩ := loadJobs_saveJobs hwell now
  rw [restart, hsaved, hloaded]
  exact hjobs

theorem restart_alike {s : Scheduler F M} (hwell : s.table.WellFormed host)
    (hsaved : s.file = saveJobs s.table) (now : DateTime)
    (hnext : ∀ job ∈ s.table.jobs, job.enabled = true → job.nextRunAt ≠ "") :
    s.Alike host (s.restart host now).1 := by
  refine ⟨hwell, restart_wellFormed hwell now, ?_⟩
  rw [TableSim, restart_table hwell hsaved now, List.forall₂_map_right_iff, List.forall₂_same]
  intro job hjob
  refine ⟨rfl, rfl, rfl, ?_, rfl, rfl, ?_⟩
  · have hsession := (hwell job hjob).session.2
    by_cases hempty : job.conversationId = ""
    · simp [CronJob.restored, hempty, hsession]
    · simp [CronJob.restored, hempty]
  · rintro (henabled | hin)
    · rw [CronJob.restored]
      simp only [if_neg (hnext job hjob henabled)]
    · cases hin

/-! ## A job without a next time -/

variable (interval) in
/-- The tick submits no job that is not due. -/
theorem not_passed_of_not_due {s : Scheduler F M} (hwell : s.table.WellFormed host)
    (outcomes : Nat → SubmitOutcome) {job : CronJob F M} (hjob : job ∈ s.table.jobs)
    (hdue : job.dueNow host current = false) :
    job.jobId ∉ (s.tick host interval current outcomes).2.passed.map CronTurn.jobId := by
  rw [(tick_spec interval current _ hwell).1]
  intro hmem
  obtain ⟨other, hother, hid⟩ := List.mem_map.mp hmem
  obtain ⟨htable, hnow⟩ := mem_dueJobs.mp ((passedJobs_sublist s).mem hother)
  rw [List.inj_on_of_nodup_map s.table.nodup htable hjob hid, hdue] at hnow
  cases hnow

theorem reached_returned (jobs : List (CronJob F M)) (i : Nat) :
    reached host interval current (fun _ => .returned) jobs i = jobs.length := by
  induction jobs generalizing i with
  | nil => rfl
  | cons job rest ih =>
      rw [reached, endsTick, if_neg Bool.false_ne_true, ih]
      rfl

variable (interval) in
/-- A due job that raises nothing, and is the only one enabled, is submitted. -/
theorem passed_of_due {s : Scheduler F M} (hwell : s.table.WellFormed host) {job : CronJob F M}
    (hjob : job ∈ s.table.jobs) (hdue : job.dueNow host current = true)
    (hcomputable : job.computable host current = true)
    (hothers : ∀ other ∈ s.table.jobs, other.jobId ≠ job.jobId → other.enabled = false) :
    job.jobId ∈
      (s.tick host interval current (fun _ => .returned)).2.passed.map CronTurn.jobId := by
  have hall : (s.dueJobs host current).all (CronJob.computable host current) = true := by
    rw [List.all_eq_true]
    intro other hother
    obtain ⟨hmem, hnow⟩ := mem_dueJobs.mp hother
    by_cases hid : other.jobId = job.jobId
    · rw [List.inj_on_of_nodup_map s.table.nodup hmem hjob hid]
      exact hcomputable
    · have hdisabled := hothers other hmem hid
      simp [CronJob.dueNow, CronJob.isDue, hdisabled, Except.toOption] at hnow
  rw [(tick_spec interval current _ hwell).1, passedJobs, if_pos hall, reached_returned, List.take_length]
  exact List.mem_map_of_mem (mem_dueJobs.mpr ⟨hjob, hdue⟩)

theorem cancel_find (s : Scheduler F M) {jobId : String} (hstrip : strip jobId = jobId)
    (other : String) :
    (s.cancel jobId).1.table.find other = (s.table.find other).map fun job =>
      if other = jobId then { job with enabled := false, status := "cancelled" } else job := by
  rw [cancel, hstrip]
  cases hfound : s.table.find jobId with
  | none =>
      by_cases hsame : other = jobId
      · simp [hsame, hfound]
      · simp [hsame]
  | some job =>
      have hid := (JobTable.find_eq_some_iff.mp hfound).2
      simp only [save, JobTable.find_assign, hid]
      by_cases hsame : other = jobId
      · simp [hsame, hfound, hid]
      · simp [hsame]

variable (host interval) in
/-- Some jobs are cancelled. -/
theorem cancels_find {jobIds : List String} (hstrip : ∀ jobId ∈ jobIds, strip jobId = jobId)
    (s : Scheduler F M) (other : String) :
    ∃ f : CronJob F M → CronJob F M,
      (((schedulerMachine host interval).run s (jobIds.map Call.cancel)).table.find other =
        (s.table.find other).map f) ∧
      (other ∈ jobIds → ∀ job, (f job).enabled = false) ∧ (other ∉ jobIds → ∀ job, f job = job) := by
  induction jobIds generalizing s with
  | nil =>
      refine ⟨id, by simp [Machine.run], ?_, fun _ _ => rfl⟩
      intro hmem
      cases hmem
  | cons jobId rest ih =>
      obtain ⟨f, hf, hin, hout⟩ := ih
        (fun id hid => hstrip id (List.mem_cons_of_mem _ hid)) (s.cancel jobId).1
      refine ⟨fun job => f (if other = jobId then
        { job with enabled := false, status := "cancelled" } else job), ?_, ?_, ?_⟩
      · rw [List.map_cons, Machine.run_cons]
        show ((schedulerMachine host interval).run (s.cancel jobId).1
          (rest.map Call.cancel)).table.find other = _
        rw [hf, cancel_find s (hstrip jobId List.mem_cons_self), Option.map_map]
        rfl
      · intro hmem job
        by_cases hrest : other ∈ rest
        · exact hin hrest _
        · rcases List.mem_cons.mp hmem with rfl | hmem
          · simp [hout hrest]
          · exact absurd hmem hrest
      · intro hmem job
        rw [List.mem_cons, not_or] at hmem
        simp [hmem.1, hout hmem.2]

variable (interval) in
/-- All jobs but one are cancelled. -/
theorem cancels_others {s : Scheduler F M} (hwell : s.table.WellFormed host)
    {job : CronJob F M} (hjob : job ∈ s.table.jobs) {jobIds : List String}
    (hids : ∀ jobId, jobId ∈ jobIds ↔
      jobId ∈ s.table.jobs.map CronJob.jobId ∧ jobId ≠ job.jobId) :
    let t := (schedulerMachine host interval).run s (jobIds.map Call.cancel)
    t.table.WellFormed host ∧ job ∈ t.table.jobs ∧
      ∀ other ∈ t.table.jobs, other.jobId ≠ job.jobId → other.enabled = false := by
  have hstrip : ∀ jobId ∈ jobIds, strip jobId = jobId := by
    intro jobId hmem
    obtain ⟨other, hother, rfl⟩ := List.mem_map.mp ((hids jobId).mp hmem).1
    exact (hwell other hother).strippedId
  refine ⟨?_, ?_, ?_⟩
  · exact Machine.run_preserves (m := schedulerMachine host interval)
      (P := fun s => s.table.WellFormed host) (fun s call h => step_wellFormed interval call h) _ hwell
  · obtain ⟨f, hf, -, hout⟩ := cancels_find host interval hstrip s job.jobId
    have hnot : job.jobId ∉ jobIds := fun hmem => ((hids _).mp hmem).2 rfl
    rw [JobTable.find_of_mem hjob, Option.map_some, hout hnot] at hf
    exact (JobTable.find_eq_some_iff.mp hf).1
  · intro other hother hne
    obtain ⟨f, hf, hin, -⟩ := cancels_find host interval hstrip s
      other.jobId
    rw [JobTable.find_of_mem hother] at hf
    obtain ⟨old, hold, heq⟩ := Option.map_eq_some_iff.mp hf.symm
    obtain ⟨hmem, hid⟩ := JobTable.find_eq_some_iff.mp hold
    rw [← heq]
    exact hin ((hids _).mpr ⟨hid ▸ List.mem_map_of_mem hmem, hne⟩) old

/-- An enabled job without a next time is due again, after a restart, at its old time. -/
theorem restored_due {job : CronJob F M} (hwell : job.WellFormed host)
    (henabled : job.enabled = true) (hempty : job.nextRunAt = "") :
    ∃ d : DateTime, job.restored.dueNow host d = true ∧ job.restored.computable host d = true := by
  obtain ⟨time, htime⟩ : ∃ time, job.schedule = .at time := by
    rcases hwell.next with ⟨d, hd⟩ | ⟨-, htime⟩
    · rw [hempty] at hd
      exact absurd hd.symm d.isoformat_ne_empty
    · exact htime
  obtain ⟨d, hd⟩ : ∃ d : DateTime, time = d.isoformat := by
    have hschedule := hwell.schedule
    rw [htime] at hschedule
    exact hschedule
  have hnext : job.restored.nextRunAt = d.isoformat := by
    simp [CronJob.restored, hempty, htime, hd]
  have hdue : job.restored.isDue host d = .ok true := by
    rw [CronJob.isDue, hnext, if_neg]
    · rw [parseDatetime_isoformat, ok_bind, decide_eq_true d.le_refl]
    · simp [show job.restored.enabled = true from henabled, d.isoformat_ne_empty]
  have hat : job.restored.isAt = true := by
    rw [CronJob.isAt, show job.restored.schedule = .at time from htime]
  refine ⟨d, ?_, ?_⟩
  · rw [CronJob.dueNow, hdue]
    rfl
  · rw [CronJob.computable, CronJob.moveOn, if_pos hat]
    rfl

variable (interval) in
/-- With the other jobs cancelled, a tick at its old time tells the two apart. -/
theorem told_apart {s : Scheduler F M} (hwell : s.table.WellFormed host)
    (hsaved : s.file = saveJobs s.table) (now : DateTime) {job : CronJob F M}
    (hjob : job ∈ s.table.jobs) (henabled : job.enabled = true) (hempty : job.nextRunAt = "") :
    ∃ later : List (Call F M), (∀ call ∈ later, call.Later) ∧
      (schedulerMachine host interval).outs s later ≠
        (schedulerMachine host interval).outs (s.restart host now).1 later := by
  obtain ⟨d, hdueRight, hcomputable⟩ := restored_due (hwell job hjob) henabled hempty
  have hdueLeft : job.dueNow host d = false := by
    simp [CronJob.dueNow, CronJob.isDue, hempty, Except.toOption]
  have hjobs := restart_table hwell hsaved now
  have hrestored : job.restored ∈ (s.restart host now).1.table.jobs := by
    rw [hjobs]
    exact List.mem_map_of_mem hjob
  let jobIds := (s.table.jobs.map CronJob.jobId).filter (· ≠ job.jobId)
  have hids : ∀ jobId, jobId ∈ jobIds ↔
      jobId ∈ s.table.jobs.map CronJob.jobId ∧ jobId ≠ job.jobId := by
    intro jobId
    simp [jobIds]
  obtain ⟨hwellLeft, hleft, -⟩ := cancels_others interval hwell hjob hids
  obtain ⟨hwellRight, hright, hothers⟩ := cancels_others interval
    (restart_wellFormed hwell now) hrestored (by
      intro jobId
      rw [hids, hjobs, List.map_map]
      rfl)
  have hnot := not_passed_of_not_due interval hwellLeft (fun _ => .returned) hleft hdueLeft
  have hpassed := passed_of_due interval hwellRight hright hdueRight hcomputable
    hothers
  refine ⟨jobIds.map Call.cancel ++ [.tick d fun _ => .returned], ?_, ?_⟩
  · intro call hcall
    rcases List.mem_append.mp hcall with hcall | hcall
    · obtain ⟨jobId, -, rfl⟩ := List.mem_map.mp hcall
      trivial
    · rw [List.mem_singleton.mp hcall]
      trivial
  · intro hsame
    rw [Machine.outs_append, Machine.outs_append] at hsame
    have hlast := List.head_eq_of_cons_eq (List.append_inj' hsame rfl).2
    apply hnot
    show job.jobId ∈ ((schedulerMachine host interval).out _ (.tick d _)).map CronTurn.jobId
    rw [hlast]
    exact hpassed

/-- A restart from a saved store changes nothing that is submitted later, exactly when
every enabled job has a next time. -/
theorem restart_transparent_iff (file : StoreFile F M) (calls : List (Call F M)) (now : DateTime)
    (hsaved : ((schedulerMachine host interval).run { file } calls).file =
      saveJobs ((schedulerMachine host interval).run { file } calls).table) :
    let s := (schedulerMachine host interval).run { file } calls
    (∀ later : List (Call F M), (∀ call ∈ later, call.Later) →
        (schedulerMachine host interval).outs s later =
          (schedulerMachine host interval).outs (s.restart host now).1 later) ↔
      ∀ job ∈ s.table.jobs, job.enabled = true → job.nextRunAt ≠ "" := by
  have hwell := run_wellFormed host interval file calls
  constructor
  · intro h job hjob henabled hempty
    obtain ⟨later, hlater, hdiffer⟩ := told_apart interval hwell hsaved now hjob
      henabled hempty
    exact hdiffer (h later hlater)
  · intro hnext later hlater
    exact Machine.outs_eq_of_related (m := schedulerMachine host interval) (R := Alike host)
      (G := Call.Later) (fun _ _ call h hcall => step_alike call h hcall)
      (restart_alike hwell hsaved now hnext) hlater

theorem create_saved {s : Scheduler F M} {raw : Option (Mapping F M)} {now : DateTime}
    (h : (s.create host raw now).2 = none) :
    (s.create host raw now).1.file = saveJobs (s.create host raw now).1.table := by
  rw [create] at h ⊢
  cases hjob : fromMapping host raw now with
  | error e =>
      rw [hjob] at h
      cases h
  | ok job =>
      rw [hjob] at h
      simp only at h ⊢
      split at h
      · next hnew =>
          rw [dif_pos hnew]
          rfl
      · cases h

variable (interval) in
theorem run_create_saved {calls : List (Call F M)} {raw : Option (Mapping F M)} {now : DateTime}
    (h : (((schedulerMachine host interval).run {} calls).create host raw now).2 = none) :
    ((schedulerMachine host interval).run {} (calls ++ [.create raw now])).file =
      saveJobs ((schedulerMachine host interval).run {} (calls ++ [.create raw now])).table := by
  rw [Machine.run_append]
  exact create_saved h

def onceMapping : Mapping Nat Unit :=
  textMapping [("id", "once"), ("session_id", "s"), ("message", "m"),
    ("at", "2026-01-01T00:00:00Z")]

def otherMapping : Mapping Nat Unit :=
  textMapping [("id", "other"), ("session_id", "s"), ("message", "m"), ("every", "5m")]

theorem restart_transparent_once :
    let s := (schedulerMachine secondsHost 1).run {} ([] ++ [.create (some onceMapping) newYear])
    s.file = saveJobs s.table ∧
      ∀ later : List (Call Nat Unit), (∀ call ∈ later, call.Later) →
        (schedulerMachine secondsHost 1).outs s later =
          (schedulerMachine secondsHost 1).outs (s.restart secondsHost newYear).1 later := by
  have hcreated : (((schedulerMachine secondsHost 1).run {} []).create secondsHost
      (some onceMapping) newYear).2 = none := by decide +kernel
  have hsaved := run_create_saved 1 hcreated
  exact ⟨hsaved, (restart_transparent_iff none _ newYear hsaved).mpr (by decide +kernel)⟩

/-- With 10 ^ 12 seconds between ticks there is no time to try again at. -/
def failedOnce : List (Call Nat Unit) :=
  [.create (some onceMapping) newYear, .tick newYear fun _ => .failed "queue is full"]

/-- The next creation of a job saves the job that was left enabled. -/
theorem failedOnce_restart_differs :
    let s := (schedulerMachine secondsHost (10 ^ 12)).run {}
      (failedOnce ++ [.create (some otherMapping) newYear])
    s.file = saveJobs s.table ∧
      ¬ ∀ later : List (Call Nat Unit), (∀ call ∈ later, call.Later) →
        (schedulerMachine secondsHost (10 ^ 12)).outs s later =
          (schedulerMachine secondsHost (10 ^ 12)).outs (s.restart secondsHost newYear).1 later := by
  have hcreated : (((schedulerMachine secondsHost (10 ^ 12)).run {} failedOnce).create secondsHost
      (some otherMapping) newYear).2 = none := by decide +kernel
  have hsaved := run_create_saved (10 ^ 12) hcreated
  have hjob : ∃ job ∈ ((schedulerMachine secondsHost (10 ^ 12)).run {}
      (failedOnce ++ [.create (some otherMapping) newYear])).table.jobs,
        job.enabled = true ∧ job.nextRunAt = "" := by decide +kernel
  obtain ⟨job, hmem, henabled, hempty⟩ := hjob
  refine ⟨hsaved, fun hsame => ?_⟩
  obtain ⟨later, hlater, hdiffer⟩ := told_apart (10 ^ 12)
    (run_wellFormed secondsHost (10 ^ 12) none _) hsaved newYear hmem henabled hempty
  exact hdiffer (hsame later hlater)

end Scheduler

end Automation
end CodeCub

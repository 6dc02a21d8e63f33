import CodeCub.Automation.Scheduler

/-!
# The scheduler under concurrent calls

Between the sections that hold the lock a tick only knows the jobs it selected.  Here the
sections of any number of ticks are interleaved with `create` and `cancel`.  The handler of
a failed submission enables an `at` job again whatever happened to it meanwhile; in runs in
which it never meets a cancelled job, a cancelled job stays cancelled.
-/

namespace CodeCub
namespace Automation

open Python

/-- A tick between two of its sections; `cancelledBefore` is what had been cancelled when it
selected its jobs. -/
structure ActiveTick (F M : Type) where
  current : DateTime
  waiting : List (CronJob F M)
  submitting : Option (CronJob F M) := none
  cancelledBefore : List String

/-- `cancelled` are the ids for which `cancel` has returned, and `started` the submissions:
the id of the job, with what had been cancelled when its tick selected it. -/
structure SharedScheduler (F M : Type) where
  scheduler : Scheduler F M
  tick : Nat → Option (ActiveTick F M) := fun _ => none
  cancelled : List String := []
  started : List (String × List String) := []

/-- Ticks are named by numbers. -/
inductive Section (F M : Type) where
  | create (raw : Option (Mapping F M)) (now : DateTime)
  | cancel (jobId : String)
  | select (tick : Nat) (current : DateTime)
  | submit (tick : Nat)
  | settle (tick : Nat) (outcome : Scheduler.SubmitOutcome)

namespace SharedScheduler

variable {F M : Type} (host : Host F M) (interval : F) (s : SharedScheduler F M)

def setTick (tick : Nat) (active : Option (ActiveTick F M)) : SharedScheduler F M :=
  { s with tick := Function.update s.tick tick active }

def cancel (jobId : String) : SharedScheduler F M :=
  let result := s.scheduler.cancel jobId
  if result.2.isNone then
    { s with scheduler := result.1, cancelled := strip jobId :: s.cancelled }
  else s

/-- A tick begins. -/
def select (tick : Nat) (current : DateTime) : SharedScheduler F M :=
  if (s.tick tick).isSome then s
  else
    let selected := s.scheduler.select host current
    match selected.2 with
    | .error _ => { s with scheduler := selected.1 }
    | .ok jobs =>
        { s with scheduler := selected.1 }.setTick tick
          (some { current, waiting := jobs, cancelledBefore := s.cancelled })

/-- The next job is passed to `submit`, or the tick returns. -/
def submit (tick : Nat) : SharedScheduler F M :=
  match s.tick tick with
  | some { current, waiting := job :: rest, submitting := none, cancelledBefore } =>
      match job.turn with
      | .error _ => s.setTick tick none
      | .ok turn =>
          { s with started := (turn.jobId, cancelledBefore) :: s.started }.setTick tick
            (some { current, waiting := rest, submitting := some job, cancelledBefore })
  | some { waiting := [], submitting := none, .. } => s.setTick tick none
  | _ => s

/-- `submit` has returned or raised. -/
def settle (tick : Nat) (outcome : Scheduler.SubmitOutcome) : SharedScheduler F M :=
  match s.tick tick with
  | some { current, waiting, submitting := some job, cancelledBefore } =>
      let settled := s.scheduler.settle host interval current job.jobId outcome
      { s with scheduler := settled.1 }.setTick tick
        (if settled.2.isSome then none
          else some { current, waiting, submitting := none, cancelledBefore })
  | _ => s

def step : Section F M → SharedScheduler F M
  | .create raw now => { s with scheduler := (s.scheduler.create host raw now).1 }
  | .cancel jobId => s.cancel jobId
  | .select tick current => s.select host tick current
  | .submit tick => s.submit tick
  | .settle tick outcome => s.settle host interval tick outcome

end SharedScheduler

def sharedMachine {F M : Type} (host : Host F M) (interval : F) :
    Machine (SharedScheduler F M) (Section F M) Unit where
  step s i := (s.step host interval i, ())

namespace SharedScheduler

variable {F M : Type} {host : Host F M} {interval : F}

/-- A job whose cancellation has returned is disabled, and none that was cancelled before
the selection of a tick is submitted by it. -/
structure CancelledStay (s : SharedScheduler F M) : Prop where
  disabled : ∀ jobId ∈ s.cancelled, ∃ job, s.scheduler.table.find jobId = some job ∧
    job.enabled = false
  notStarted : ∀ entry ∈ s.started, entry.1 ∉ entry.2

/-- The section is not the handling of a failed submission of a cancelled `at` job. -/
def NoLateFailure (s : SharedScheduler F M) : Section F M → Prop
  | .settle tick (.failed _) => ∀ active job found, s.tick tick = some active →
      active.submitting = some job → s.scheduler.table.find job.jobId = some found →
        found.isAt = true → job.jobId ∉ s.cancelled
  | _ => True

/-- No tick holds a job that had been cancelled when it selected its jobs. -/
def ActiveTick.Clean (active : ActiveTick F M) : Prop :=
  (∀ job ∈ active.waiting, job.jobId ∉ active.cancelledBefore) ∧
    ∀ job, active.submitting = some job → job.jobId ∉ active.cancelledBefore

structure Inv (s : SharedScheduler F M) : Prop extends CancelledStay s where
  clean : ∀ tick active, s.tick tick = some active → ActiveTick.Clean active

/-! ## What the sections keep -/

/-- The job is in the table, disabled. -/
def DisabledAt (table : JobTable F M) (jobId : String) : Prop :=
  ∃ job, table.find jobId = some job ∧ job.enabled = false

theorem create_disabledAt {s : Scheduler F M} {jobId : String} (h : DisabledAt s.table jobId)
    (raw : Option (Mapping F M)) (now : DateTime) :
    DisabledAt (s.create host raw now).1.table jobId := by
  obtain ⟨job, hjob, hdisabled⟩ := h
  rw [Scheduler.create]
  cases fromMapping host raw now with
  | error e => exact ⟨job, hjob, hdisabled⟩
  | ok new =>
      simp only
      split
      · refine ⟨job, ?_, hdisabled⟩
        obtain ⟨hmem, hid⟩ := JobTable.find_eq_some_iff.mp hjob
        exact JobTable.find_eq_some_iff.mpr ⟨List.mem_append_left _ hmem, hid⟩
      · exact ⟨job, hjob, hdisabled⟩

/-- A cancellation that returns has found the job. -/
theorem cancel_disabledAt_self {s : Scheduler F M} {jobId : String}
    (h : (s.cancel jobId).2.isNone = true) : DisabledAt (s.cancel jobId).1.table (strip jobId) := by
  rw [Scheduler.cancel] at h ⊢
  cases hfound : s.table.find (strip jobId) with
  | none =>
      rw [hfound] at h
      cases h
  | some job =>
      refine ⟨{ job with enabled := false, status := "cancelled" }, ?_, rfl⟩
      have hid := (JobTable.find_eq_some_iff.mp hfound).2
      simp only [Scheduler.save, JobTable.find_assign, hid, if_true, hfound, Option.map_some]

theorem cancel_disabledAt {s : Scheduler F M} {jobId other : String}
    (h : DisabledAt s.table other) : DisabledAt (s.cancel jobId).1.table other := by
  obtain ⟨job, hjob, hdisabled⟩ := h
  rw [Scheduler.cancel]
  cases hfound : s.table.find (strip jobId) with
  | none => exact ⟨job, hjob, hdisabled⟩
  | some found =>
      simp only [DisabledAt, Scheduler.save, JobTable.find_assign]
      by_cases hsame : other = found.jobId
      · rw [if_pos hsame, hjob]
        exact ⟨_, rfl, rfl⟩
      · rw [if_neg hsame]
        exact ⟨job, hjob, hdisabled⟩

/-- A disabled job is not due. -/
theorem not_mem_of_disabledAt {s : Scheduler F M} {current : DateTime}
    {jobs : List (CronJob F M)} {jobId : String} (hdue : s.due host current = .ok jobs)
    (h : DisabledAt s.table jobId) : jobId ∉ jobs.map CronJob.jobId := by
  intro hmem
  obtain ⟨job, hjob, rfl⟩ := List.mem_map.mp hmem
  obtain ⟨found, hfound, hdisabled⟩ := h
  obtain ⟨htable, henabled⟩ := Scheduler.enabled_of_due hdue hjob
  rw [JobTable.find_of_mem htable, Option.some.injEq] at hfound
  rw [hfound, hdisabled] at henabled
  cases henabled

variable (host) in
theorem select_disabledAt {s : Scheduler F M} {jobId : String} (h : DisabledAt s.table jobId)
    (current : DateTime) : DisabledAt (s.select host current).1.table jobId := by
  rw [Scheduler.select]
  cases hdue : s.due host current with
  | error e => exact h
  | ok jobs =>
      have hmoved : DisabledAt (Scheduler.moveAll host current jobs s.table).1 jobId := by
        rw [DisabledAt, Scheduler.moveAll_find_of_not_mem (not_mem_of_disabledAt hdue h)]
        exact h
      simp only
      split
      · exact hmoved
      · split
        · exact h
        · exact hmoved

theorem selected_of_ok {s : Scheduler F M} {current : DateTime} {jobs : List (CronJob F M)}
    (h : (s.select host current).2 = .ok jobs) : s.due host current = .ok jobs := by
  rw [Scheduler.select] at h
  cases hdue : s.due host current with
  | error e =>
      rw [hdue] at h
      cases h
  | ok due =>
      rw [hdue] at h
      simp only at h
      split at h
      · cases h
      · cases h
        rfl

/-- Only the handler of a failed `at` job enables a job, and it enables no other one. -/
theorem settle_disabledAt {s : Scheduler F M} {current : DateTime} {jobId other : String}
    {outcome : Scheduler.SubmitOutcome} (h : DisabledAt s.table other)
    (hguard : ∀ error found, outcome = .failed error → s.table.find jobId = some found →
      found.isAt = true → jobId ≠ other) :
    DisabledAt (s.settle host interval current jobId outcome).1.table other := by
  cases outcome with
  | returned => exact h
  | interrupted => exact h
  | failed error =>
      obtain ⟨job, hjob, hdisabled⟩ := h
      rw [Scheduler.settle]
      cases hfound : s.table.find jobId with
      | none =>
          rw [Scheduler.fail, hfound]
          exact ⟨job, hjob, hdisabled⟩
      | some found =>
          have hid := (JobTable.find_eq_some_iff.mp hfound).2
          rw [(Scheduler.fail_table _ _ _ s hfound error).1, DisabledAt, JobTable.find_assign,
            failed_jobId, hid]
          by_cases hsame : other = jobId
          · have hjobFound : job = found := by
              rw [hsame, hfound, Option.some.injEq] at hjob
              exact hjob.symm
            have hat : found.isAt = false := Bool.eq_false_iff.mpr fun hat =>
              hguard error found rfl hfound hat hsame.symm
            rw [if_pos hsame, hjob]
            refine ⟨_, rfl, ?_⟩
            rw [failed_enabled, hat, ← hjobFound, hdisabled]
            rfl
          · rw [if_neg hsame]
            exact ⟨job, hjob, hdisabled⟩

/-! ## Runs -/

/-- Another table with the same cancelled jobs disabled. -/
theorem Inv.withScheduler {s : SharedScheduler F M} (h : s.Inv) {scheduler : Scheduler F M}
    (hdisabled : ∀ jobId ∈ s.cancelled, DisabledAt scheduler.table jobId) :
    Inv { s with scheduler } :=
  { h with disabled := hdisabled }

theorem Inv.setTick {s : SharedScheduler F M} (h : s.Inv) {tick : Nat}
    {active : Option (ActiveTick F M)} (hclean : ∀ a, active = some a → ActiveTick.Clean a) :
    (s.setTick tick active).Inv := by
  refine { h with clean := ?_ }
  intro other a ha
  simp only [SharedScheduler.setTick, Function.update_apply] at ha
  split at ha
  · exact hclean a ha
  · exact h.clean other a ha

theorem cancel_inv {s : SharedScheduler F M} (h : s.Inv) (jobId : String) :
    (s.cancel jobId).Inv := by
  simp only [SharedScheduler.cancel]
  split
  · next hreturned =>
      refine { h with disabled := ?_ }
      intro other hother
      rcases List.mem_cons.mp hother with rfl | hother
      · exact cancel_disabledAt_self hreturned
      · exact cancel_disabledAt (h.disabled other hother)
  · exact h

theorem select_inv {s : SharedScheduler F M} (h : s.Inv) (tick : Nat) (current : DateTime) :
    (s.select host tick current).Inv := by
  have hselected := h.withScheduler fun jobId hjobId =>
    select_disabledAt host (h.disabled jobId hjobId) current
  simp only [SharedScheduler.select]
  split
  · exact h
  · split
    · exact hselected
    · next jobs hjobs =>
        apply hselected.setTick
        intro active hactive
        cases hactive
        -- What is due is enabled, and what was cancelled is not.
        refine ⟨?_, fun job hjob => by cases hjob⟩
        intro job hjob hcancelled
        exact not_mem_of_disabledAt (selected_of_ok hjobs) (h.disabled _ hcancelled)
          (List.mem_map_of_mem hjob)

theorem submit_inv {s : SharedScheduler F M} (h : s.Inv) (tick : Nat) : (s.submit tick).Inv := by
  have hended : (s.setTick tick none).Inv := h.setTick fun active hactive => by cases hactive
  rw [SharedScheduler.submit]
  split
  · next current job rest cancelledBefore hactive =>
      have hclean := h.clean tick _ hactive
      split
      · exact hended
      · next turn hturn =>
          have hid : turn.jobId = job.jobId := by
            rw [CronJob.turn] at hturn
            split at hturn
            · cases hturn
            · cases hturn
              rfl
          have hstarted : Inv { s with started := (turn.jobId, cancelledBefore) :: s.started } := by
            refine { disabled := h.disabled, clean := h.clean, notStarted := ?_ }
            intro entry hentry
            rcases List.mem_cons.mp hentry with rfl | hentry
            · rw [hid]
              exact hclean.1 job List.mem_cons_self
            · exact h.notStarted entry hentry
          apply hstarted.setTick
          intro active hactive
          cases hactive
          refine ⟨fun other hother => hclean.1 other (List.mem_cons_of_mem _ hother), ?_⟩
          intro other hother
          cases hother
          exact hclean.1 job List.mem_cons_self
  · exact hended
  · exact h

theorem settle_inv {s : SharedScheduler F M} (h : s.Inv) (tick : Nat)
    (outcome : Scheduler.SubmitOutcome) (hguard : s.NoLateFailure (.settle tick outcome)) :
    (s.settle host interval tick outcome).Inv := by
  rw [SharedScheduler.settle]
  split
  · next current waiting job cancelledBefore hactive =>
      refine Inv.setTick (h.withScheduler ?_) ?_
      · intro jobId hjobId
        apply settle_disabledAt (h.disabled jobId hjobId)
        intro error found houtcome hfound hat hsame
        rw [houtcome] at hguard
        exact hguard _ job found hactive rfl hfound hat (hsame ▸ hjobId)
      · intro active hended
        split at hended
        · cases hended
        · cases hended
          exact ⟨(h.clean tick _ hactive).1, fun other hother => by cases hother⟩
  · exact h

theorem step_inv {s : SharedScheduler F M} (h : s.Inv) (i : Section F M)
    (hguard : s.NoLateFailure i) : (s.step host interval i).Inv := by
  cases i with
  | create raw now =>
      exact h.withScheduler fun jobId hjobId =>
        create_disabledAt (h.disabled jobId hjobId) raw now
  | cancel jobId => exact cancel_inv h jobId
  | select tick current => exact select_inv h tick current
  | submit tick => exact submit_inv h tick
  | settle tick outcome => exact settle_inv h tick outcome hguard

/-- The handler of a failed `at` job enables it. -/
theorem noLateFailure_of_stay {s : SharedScheduler F M} (i : Section F M)
    (h : (s.step host interval i).CancelledStay) : s.NoLateFailure i := by
  cases i with
  | create raw now => trivial
  | cancel jobId => trivial
  | select tick current => trivial
  | submit tick => trivial
  | settle tick outcome =>
      cases outcome with
      | returned => trivial
      | interrupted => trivial
      | failed error =>
          intro active job found hactive hjob hfound hat hcancelled
          obtain ⟨current, waiting, submitting, cancelledBefore⟩ := active
          simp only at hjob
          subst hjob
          simp only [SharedScheduler.step, SharedScheduler.settle, hactive] at h
          obtain ⟨later, hlater, hdisabled⟩ := h.disabled job.jobId hcancelled
          have hid := (JobTable.find_eq_some_iff.mp hfound).2
          simp only [SharedScheduler.setTick, Scheduler.settle,
            (Scheduler.fail_table _ _ _ s.scheduler hfound error).1, JobTable.find_assign, failed_jobId,
            hid, if_true, hfound, Option.map_some, Option.some.injEq] at hlater
          have henabled := failed_enabled host interval
            current found error
          rw [hlater, hdisabled, hat] at henabled
          cases henabled

theorem start_inv (scheduler : Scheduler F M) : Inv { scheduler } where
  disabled := fun jobId hjobId => by cases hjobId
  notStarted := fun entry hentry => by cases hentry
  clean := fun tick active hactive => by cases hactive

/-- Cancelled jobs stay cancelled, in every state of a run, exactly when no failed
submission of an `at` job is handled after its cancellation. -/
theorem cancelled_stay_iff (scheduler : Scheduler F M) (sections : List (Section F M)) :
    (∀ before, before <+: sections →
        ((sharedMachine host interval).run { scheduler } before).CancelledStay) ↔
      (sharedMachine host interval).Along NoLateFailure { scheduler } sections :=
  Machine.forall_prefix_iff_along_of (m := sharedMachine host interval) (P := Inv)
    (fun _ i h hguard => step_inv h i hguard) (fun _ h => h.toCancelledStay)
    (fun _ i _ h => noLateFailure_of_stay i h) (start_inv scheduler)

/-- The job is cancelled while its submission is under way, and the submission fails. -/
def lateFailure : List (Section Nat Unit) :=
  [.create (some (textMapping [("id", "once"), ("session_id", "s"), ("message", "m"),
      ("at", "2026-01-01T00:00:00Z")])) newYear,
    .select 0 newYear, .submit 0, .cancel "once", .settle 0 (.failed "queue is full")]

theorem lateFailure_enables : ¬ ∀ before, before <+: lateFailure →
    ((sharedMachine secondsHost 1).run { scheduler := {} } before).CancelledStay := by
  intro h
  obtain ⟨job, hjob, hdisabled⟩ := (h lateFailure (List.prefix_refl _)).disabled "once"
    (by decide +kernel)
  have henabled : (((sharedMachine secondsHost 1).run { scheduler := {} }
      lateFailure).scheduler.table.find "once").map CronJob.enabled = some true := by
    decide +kernel
  rw [hjob, Option.map_some, hdisabled] at henabled
  cases henabled

end SharedScheduler

end Automation
end CodeCub

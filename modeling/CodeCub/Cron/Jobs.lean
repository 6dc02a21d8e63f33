import CodeCub.Cron.Store

/-!
# Adding a job

`CronService.add_job` of `pico/proactive_engine/schedulers/cron/service.py`: a request is
answered with a job that is there already, if one of four comparisons finds one, and with a new
job otherwise.
-/

namespace CodeCub
namespace Cron

open Python

/-! ## The next time -/

/-- `knownZone` is whether there is a `ZoneInfo`, and `cronNext` the next time of an expression
in a zone or in the local one, where `croniter` gives one. -/
structure Host where
  knownZone : Str → Bool
  cronNext : Str → Option Str → ℤ → Option ℤ

/-- A text that counts as true. -/
def given (text : Option Str) : Option Str := text.filter (· ≠ [])

variable (host : Host)

/-- `_compute_next_run`. -/
def computeNextRun (schedule : CronSchedule) (now : ℤ) : Option ℤ :=
  match schedule.kind with
  | .once => schedule.atMs.filter fun t => t ≠ 0 ∧ now < t
  | .every => (schedule.everyMs.filter fun n => 0 < n).map fun n => now + n
  | .cron => (given schedule.expr).bind fun expr => host.cronNext expr (given schedule.tz) now

/-- The error for a schedule that does not run again. -/
def notRunnable (schedule : CronSchedule) : Str :=
  match schedule.kind with
  | .once => "at time is in the past".toList
  | .every => "every_seconds must be positive".toList
  | .cron =>
      "invalid cron expression '".toList ++ schedule.expr.getD "None".toList ++ ['\'']

/-- `_validate_schedule_for_add`. -/
def validateScheduleForAdd (schedule : CronSchedule) (now : ℤ) : Reads Unit :=
  let zone := given schedule.tz
  if zone ≠ none ∧ schedule.kind ≠ .cron then
    .error "tz can only be used with cron schedules".toList
  else if zone.any (fun tz => !host.knownZone tz) then
    .error ("unknown timezone '".toList ++ zone.getD [] ++ ['\''])
  else if computeNextRun host schedule now = none then .error (notRunnable schedule)
  else .ok ()

theorem computeNextRun_of_validate {schedule : CronSchedule} {now : ℤ}
    (h : validateScheduleForAdd host schedule now = .ok ()) :
    ∃ next, computeNextRun host schedule now = some next := by
  rw [validateScheduleForAdd] at h
  by_cases hnext : computeNextRun host schedule now = none
  · simp only [hnext, if_true] at h
    split at h
    · cases h
    · split at h
      · cases h
      · cases h
  · exact Option.ne_none_iff_exists'.mp hnext

/-- The next time of a schedule that runs once is to come. -/
theorem lt_computeNextRun {schedule : CronSchedule} {now next : ℤ} (honce : schedule.kind = .once)
    (h : computeNextRun host schedule now = some next) : now < next := by
  rw [computeNextRun, honce] at h
  have hlater := (Option.filter_eq_some_iff.mp h).2
  exact (of_decide_eq_true hlater).2

/-! ## Requests -/

/-- The arguments of `add_job`. -/
structure JobRequest where
  name : Str
  schedule : CronSchedule
  message : Str
  deliver : Bool := false
  channel : Option Str := none
  recipient : Option Str := none
  deleteAfterRun : Bool := false
  topicTag : Option Str := none

namespace JobRequest

variable (request : JobRequest)

/-- The job is switched on, and for the same recipient. -/
def reaches (job : CronJob) : Bool :=
  job.enabled ∧ job.payload.channel = request.channel ∧
    job.payload.recipient = request.recipient

def sameTopic (job : CronJob) : Bool :=
  request.reaches job ∧ job.payload.topicTag = request.topicTag

def sameMessage (now : ℤ) (job : CronJob) : Bool :=
  request.reaches job ∧ job.payload.message = request.message ∧
    job.state.nextRunAtMs.any fun next => now < next

/-- The job runs within 15 minutes of the new one. -/
def nearby (newNext : ℤ) (job : CronJob) : Bool :=
  request.reaches job ∧
    job.state.nextRunAtMs.any fun next => (next - newNext).natAbs ≤ 15 * 60 * 1000

/-- The comparison of `_find_duplicate_schedule`. -/
def sameSchedule (job : CronJob) : Bool :=
  request.reaches job && decide (job.schedule.kind = request.schedule.kind) &&
    match request.schedule.kind with
    | .cron => job.schedule.expr = request.schedule.expr ∧ job.schedule.tz = request.schedule.tz
    | .every => job.schedule.everyMs = request.schedule.everyMs
    | .once => job.schedule.atMs = request.schedule.atMs

/-- The job of the topic as the request wants it. -/
def retopic (next : Option ℤ) (now : ℤ) (job : CronJob) : CronJob :=
  { job with
    name := request.name
    schedule := request.schedule
    payload := { job.payload with message := request.message, deliver := request.deliver }
    state := { job.state with nextRunAtMs := next }
    updatedAtMs := now }

/-- The job of the same schedule with the new message. -/
def reword (next : Option ℤ) (now : ℤ) (job : CronJob) : CronJob :=
  let again := !job.enabled || job.state.nextRunAtMs = none
  { job with
    name := request.name
    enabled := job.enabled || again
    payload := { job.payload with message := request.message, deliver := request.deliver }
    state := { job.state with nextRunAtMs := if again then next else job.state.nextRunAtMs }
    updatedAtMs := now }

def newJob (id : Str) (next : Option ℤ) (now : ℤ) : CronJob where
  id := id
  name := request.name
  schedule := request.schedule
  payload :=
    { message := request.message
      deliver := request.deliver
      channel := request.channel
      recipient := request.recipient
      topicTag := request.topicTag }
  state := { nextRunAtMs := next }
  createdAtMs := now
  updatedAtMs := now
  deleteAfterRun := request.deleteAfterRun

end JobRequest

/-! ## The comparisons -/

variable {F : Type}

/-- Where a loop over the jobs stopped. -/
structure Found (F : Type) where
  front : List (Entry F)
  entry : Entry F
  back : List (Entry F)

/-- The entries with another job in that place. -/
def Found.replaced (found : Found F) (job : CronJob) : List (Entry F) :=
  found.front ++ ⟨job, found.entry.raw⟩ :: found.back

def firstWith (p : CronJob → Bool) (entries : List (Entry F)) : Option (Found F) :=
  match entries.dropWhile fun entry => !p entry.job with
  | [] => none
  | entry :: back => some ⟨entries.takeWhile fun entry => !p entry.job, entry, back⟩

/-- What answers a request. -/
inductive Answer (F : Type) where
  | topic (found : Found F)
  | message (found : Found F)
  | nearby (found : Found F)
  | schedule (found : Found F)
  | fresh

/-- The four comparisons of `add_job`, in their order. -/
def answer (request : JobRequest) (now : ℤ) (next : Option ℤ) (entries : List (Entry F)) :
    Answer F :=
  match (given request.topicTag).bind fun _ => firstWith request.sameTopic entries with
  | some found => .topic found
  | none =>
      match firstWith (request.sameMessage now) entries with
      | some found => .message found
      | none =>
          match next.bind fun newNext => firstWith (request.nearby newNext) entries with
          | some found => .nearby found
          | none =>
              match firstWith request.sameSchedule entries with
              | some found => .schedule found
              | none => .fresh

/-- What an answer means: the job that is returned, and the file afterwards. -/
def fulfil (newId : Str) (request : JobRequest) (now : ℤ) (next : Option ℤ) (file : StoreFile F) :
    Answer F → CronJob × StoreFile F
  | .topic found =>
      let job := request.retopic next now found.entry.job
      (job, saveStore { loadStore file with entries := found.replaced job })
  | .message found => (found.entry.job, file)
  | .nearby found => (found.entry.job, file)
  | .schedule found =>
      let job := request.reword next now found.entry.job
      (job, saveStore { loadStore file with entries := found.replaced job })
  | .fresh =>
      let job := request.newJob newId next now
      (job, saveStore { loadStore file with
        entries := (loadStore file).entries ++ [{ job := job }] })

/-- `CronService.add_job`. -/
def addJob (newId : Str) (now : ℤ) (request : JobRequest) (file : StoreFile F) :
    Reads (CronJob × StoreFile F) := do
  validateScheduleForAdd host request.schedule now
  let store := loadStore file
  if store.version ≠ 1 then
    .error ("unsupported cron store version '".toList ++ (toString store.version).toList ++ ['\''])
  else
    let next := computeNextRun host request.schedule now
    return fulfil newId request now next file (answer request now next store.entries)

/-! ### What the loops find -/

theorem firstWith_some {p : CronJob → Bool} {entries : List (Entry F)} {found : Found F}
    (h : firstWith p entries = some found) :
    entries = found.front ++ found.entry :: found.back ∧ p found.entry.job = true ∧
      ∀ entry ∈ found.front, p entry.job = false := by
  rw [firstWith] at h
  cases hdrop : entries.dropWhile fun entry => !p entry.job with
  | nil =>
      rw [hdrop] at h
      cases h
  | cons entry back =>
      rw [hdrop] at h
      obtain rfl := Option.some.inj h
      refine ⟨?_, ?_, ?_⟩
      · rw [← hdrop, List.takeWhile_append_dropWhile]
      · have hstop := List.head?_dropWhile_not (fun entry : Entry F => !p entry.job) entries
        rw [hdrop] at hstop
        simpa using hstop
      · intro entry hentry
        have hbefore := List.mem_takeWhile_imp hentry
        simpa using hbefore

theorem find_of_firstWith {p : CronJob → Bool} {entries : List (Entry F)} {found : Found F}
    (h : firstWith p entries = some found) :
    (entries.map Entry.job).find? p = some found.entry.job := by
  obtain ⟨hsplit, hfound, hfront⟩ := firstWith_some h
  rw [hsplit, List.map_append, List.map_cons, List.find?_append, List.find?_cons_of_pos hfound,
    List.find?_eq_none.mpr, Option.none_or]
  intro job hjob
  obtain ⟨entry, hentry, rfl⟩ := List.mem_map.mp hjob
  exact Bool.eq_false_iff.mp (hfront entry hentry)

theorem find_of_firstWith_none {p : CronJob → Bool} {entries : List (Entry F)}
    (h : firstWith p entries = none) : (entries.map Entry.job).find? p = none := by
  rw [firstWith] at h
  cases hdrop : entries.dropWhile fun entry => !p entry.job with
  | nil =>
      rw [List.dropWhile_eq_nil_iff] at hdrop
      rw [List.find?_eq_none]
      intro job hjob
      obtain ⟨entry, hentry, rfl⟩ := List.mem_map.mp hjob
      simpa using hdrop entry hentry
  | cons entry back =>
      rw [hdrop] at h
      cases h

section Answers

variable (request : JobRequest) (now : ℤ) (next : Option ℤ) (entries : List (Entry F))

/-- No job has the topic of the request. -/
def NoTopic : Prop :=
  given request.topicTag = none ∨ (entries.map Entry.job).find? request.sameTopic = none

/-- No job has its message, either. -/
def Unanswered : Prop :=
  NoTopic request entries ∧ (entries.map Entry.job).find? (request.sameMessage now) = none

def NothingNear : Prop :=
  ∀ newNext, next = some newNext →
    (entries.map Entry.job).find? (request.nearby newNext) = none

/-- When a request is answered in which way. -/
inductive Answers : Answer F → Prop
  | topic {found : Found F} (htag : given request.topicTag ≠ none)
      (h : firstWith request.sameTopic entries = some found) : Answers (.topic found)
  | message {found : Found F} (htopic : NoTopic request entries)
      (h : firstWith (request.sameMessage now) entries = some found) : Answers (.message found)
  | nearby {found : Found F} {newNext : ℤ} (hnone : Unanswered request now entries)
      (hnext : next = some newNext)
      (h : firstWith (request.nearby newNext) entries = some found) : Answers (.nearby found)
  | schedule {found : Found F} (hnone : Unanswered request now entries)
      (hnear : NothingNear request next entries)
      (h : firstWith request.sameSchedule entries = some found) : Answers (.schedule found)
  | fresh (hnone : Unanswered request now entries) (hnear : NothingNear request next entries)
      (h : (entries.map Entry.job).find? request.sameSchedule = none) : Answers .fresh

theorem answers : Answers request now next entries (answer request now next entries) := by
  rw [answer]
  cases htopic : (given request.topicTag).bind fun _ => firstWith request.sameTopic entries with
  | some found =>
      obtain ⟨tag, htag, h⟩ := Option.bind_eq_some_iff.mp htopic
      exact .topic (by rw [htag]; exact Option.some_ne_none tag) h
  | none =>
      have hnone : NoTopic request entries := by
        cases htag : given request.topicTag with
        | none => exact Or.inl htag
        | some tag =>
            rw [htag, Option.bind_some] at htopic
            exact Or.inr (find_of_firstWith_none htopic)
      cases hmessage : firstWith (request.sameMessage now) entries with
      | some found => exact .message hnone hmessage
      | none =>
          have hunanswered : Unanswered request now entries :=
            ⟨hnone, find_of_firstWith_none hmessage⟩
          cases hnear : next.bind fun newNext => firstWith (request.nearby newNext) entries with
          | some found =>
              obtain ⟨newNext, hnext, h⟩ := Option.bind_eq_some_iff.mp hnear
              exact .nearby hunanswered hnext h
          | none =>
              have hnothing : NothingNear request next entries := by
                intro newNext hnext
                rw [hnext, Option.bind_some] at hnear
                exact find_of_firstWith_none hnear
              cases hschedule : firstWith request.sameSchedule entries with
              | some found => exact .schedule hunanswered hnothing hschedule
              | none => exact .fresh hunanswered hnothing (find_of_firstWith_none hschedule)

end Answers

/-! ## What a request is promised -/

/-- What the answer to a request is worth: the job is in the file, will run, and is of the
topic that the request is for. -/
structure WillFire (request : JobRequest) (now : ℤ) (before after : StoreFile F)
    (job : CronJob) : Prop where
  stored : job ∈ (loadStore after).jobs
  enabled : job.enabled = true
  channel : job.payload.channel = request.channel
  recipient : job.payload.recipient = request.recipient
  fires : job.schedule.kind ≠ .once ∨ ∃ next, job.state.nextRunAtMs = some next ∧ now < next
  topic : given request.topicTag ≠ none → ∀ (i : ℕ) (old : CronJob),
    (loadStore before).jobs[i]? = some old → request.sameTopic old = true →
    ∃ new, (loadStore after).jobs[i]? = some new ∧ new.payload.message = request.message ∧
      new.schedule = request.schedule

/-- The job runs once, at a time that has come. -/
def CronJob.DueOnce (job : CronJob) (now : ℤ) : Prop :=
  job.schedule.kind = .once ∧ ∃ next, job.state.nextRunAtMs = some next ∧ next ≤ now

/-- No job that is due answers the request, and a second job of its topic says the same. -/
structure Unmistaken (request : JobRequest) (now : ℤ) (next : Option ℤ)
    (entries : List (Entry F)) : Prop where
  nearby : Unanswered request now entries → ∀ newNext, next = some newNext → ∀ job,
    (entries.map Entry.job).find? (request.nearby newNext) = some job → ¬ job.DueOnce now
  schedule : Unanswered request now entries → NothingNear request next entries → ∀ job,
    (entries.map Entry.job).find? request.sameSchedule = some job → ¬ job.DueOnce now
  topic : given request.topicTag ≠ none → ∀ (i j : ℕ) (first other : CronJob), i < j →
    (entries.map Entry.job)[i]? = some first → (entries.map Entry.job)[j]? = some other →
    request.sameTopic first = true → request.sameTopic other = true →
    other.payload.message = request.message ∧ other.schedule = request.schedule

/-! ## When the promise is kept -/

namespace JobRequest

variable {request : JobRequest} {job : CronJob}

theorem reaches_iff : request.reaches job = true ↔ job.enabled = true ∧
    job.payload.channel = request.channel ∧ job.payload.recipient = request.recipient :=
  decide_eq_true_iff

theorem reaches_of_sameTopic (h : request.sameTopic job = true) : request.reaches job = true :=
  (of_decide_eq_true h).1

theorem reaches_of_sameMessage {now : ℤ} (h : request.sameMessage now job = true) :
    request.reaches job = true :=
  (of_decide_eq_true h).1

theorem reaches_of_nearby {newNext : ℤ} (h : request.nearby newNext job = true) :
    request.reaches job = true :=
  (of_decide_eq_true h).1

theorem reaches_of_sameSchedule (h : request.sameSchedule job = true) :
    request.reaches job = true := by
  rw [sameSchedule, Bool.and_eq_true, Bool.and_eq_true] at h
  exact h.1.1

theorem kind_of_sameSchedule (h : request.sameSchedule job = true) :
    job.schedule.kind = request.schedule.kind := by
  rw [sameSchedule, Bool.and_eq_true, Bool.and_eq_true] at h
  exact of_decide_eq_true h.1.2

end JobRequest

theorem addJob_eq_ok {newId : Str} {now : ℤ} {request : JobRequest} {file after : StoreFile F}
    {job : CronJob} (h : addJob host newId now request file = .ok (job, after)) :
    (∃ next, computeNextRun host request.schedule now = some next) ∧
      (loadStore file).version = 1 ∧
      fulfil newId request now (computeNextRun host request.schedule now) file
        (answer request now (computeNextRun host request.schedule now)
          (loadStore file).entries) = (job, after) := by
  rw [addJob] at h
  obtain ⟨_, hvalid, h⟩ := bind_eq_ok h
  dsimp only at h
  split at h
  · cases h
  · next hversion =>
      exact ⟨computeNextRun_of_validate host hvalid, not_not.mp hversion, Except.ok.inj h⟩

/-- What is refused. -/
theorem addJob_accepts_iff {newId : Str} {now : ℤ} {request : JobRequest} {file : StoreFile F} :
    (∃ job after, addJob host newId now request file = .ok (job, after)) ↔
      validateScheduleForAdd host request.schedule now = .ok () ∧
        (loadStore file).version = 1 := by
  constructor
  · rintro ⟨job, after, h⟩
    obtain ⟨_, hversion, _⟩ := addJob_eq_ok host h
    rw [addJob] at h
    obtain ⟨_, hvalid, _⟩ := bind_eq_ok h
    exact ⟨hvalid, hversion⟩
  · rintro ⟨hvalid, hversion⟩
    rw [addJob, hvalid, ok_bind]
    dsimp only
    rw [if_neg (not_not.mpr hversion)]
    exact ⟨_, _, rfl⟩

section Fulfil

variable (newId : Str) {now : ℤ} {request : JobRequest} {file : StoreFile F}

theorem loadStore_replaced {store : CronStore F} (h : store.Readable) {p : CronJob → Bool}
    {found : Found F} (hfound : firstWith p store.entries = some found)
    (henabled : found.entry.job.enabled = true) (job : CronJob) :
    (loadStore (saveStore { store with entries := found.replaced job })).jobs =
      found.front.map Entry.job ++ job :: found.back.map Entry.job := by
  obtain ⟨hsplit, _, _⟩ := firstWith_some hfound
  have hmem : found.entry ∈ store.entries := by
    rw [hsplit]
    exact List.mem_append_right _ List.mem_cons_self
  have hreplaced : found.replaced job = found.front ++ ⟨job, none⟩ :: found.back := by
    rw [Found.replaced, h.raw_eq_none hmem henabled]
  have hreadable := h.edit hsplit job
  rw [hreplaced, loadStore_saveStore hreadable, CronStore.jobs, List.map_append, List.map_cons]

/-- Where no job has the topic, nothing is to be shown about it. -/
theorem not_sameTopic {entries : List (Entry F)} (hnone : NoTopic request entries)
    (htag : given request.topicTag ≠ none) {i : ℕ} {job : CronJob}
    (hjob : (entries.map Entry.job)[i]? = some job) : request.sameTopic job ≠ true := by
  have hfind := hnone.resolve_left htag
  rw [List.find?_eq_none] at hfind
  exact hfind job (List.mem_of_getElem? hjob)

variable {next : Option ℤ} {found : Found F}

theorem fulfil_message_iff (hnone : NoTopic request (loadStore file).entries)
    (hfound : firstWith (request.sameMessage now) (loadStore file).entries = some found) :
    WillFire request now file file found.entry.job ↔
      Unmistaken request now next (loadStore file).entries := by
  have hfind := find_of_firstWith hfound
  obtain ⟨hsplit, hsame, _⟩ := firstWith_some hfound
  obtain ⟨henabled, hchannel, hrecipient⟩ :=
    JobRequest.reaches_iff.mp (JobRequest.reaches_of_sameMessage hsame)
  refine iff_of_true ⟨?_, henabled, hchannel, hrecipient, ?_, ?_⟩ ⟨?_, ?_, ?_⟩
  · exact List.mem_of_find?_eq_some hfind
  · have hlater := (of_decide_eq_true hsame).2.2
    rw [Option.any_eq_true] at hlater
    obtain ⟨t, ht, hnow⟩ := hlater
    exact Or.inr ⟨t, ht, of_decide_eq_true hnow⟩
  · exact fun htag i old hold htopic => absurd htopic (not_sameTopic hnone htag hold)
  · intro hunanswered
    rw [hunanswered.2] at hfind
    cases hfind
  · intro hunanswered
    rw [hunanswered.2] at hfind
    cases hfind
  · exact fun htag i k first other _ hfirst _ htopic _ =>
      absurd htopic (not_sameTopic hnone htag hfirst)

theorem fires_iff_not_dueOnce {job : CronJob} {t : ℤ} (ht : job.state.nextRunAtMs = some t) :
    (job.schedule.kind ≠ .once ∨ ∃ next, job.state.nextRunAtMs = some next ∧ now < next) ↔
      ¬ job.DueOnce now := by
  rw [CronJob.DueOnce, ht, not_and_or]
  simp only [Option.some.injEq, exists_eq_left', not_le, ne_eq]

theorem fulfil_nearby_iff {newNext : ℤ}
    (hnone : Unanswered request now (loadStore file).entries) (hnext : next = some newNext)
    (hfound : firstWith (request.nearby newNext) (loadStore file).entries = some found) :
    WillFire request now file file found.entry.job ↔
      Unmistaken request now next (loadStore file).entries := by
  have hfind := find_of_firstWith hfound
  obtain ⟨hsplit, hsame, _⟩ := firstWith_some hfound
  obtain ⟨henabled, hchannel, hrecipient⟩ :=
    JobRequest.reaches_iff.mp (JobRequest.reaches_of_nearby hsame)
  have hnear := (of_decide_eq_true hsame).2
  rw [Option.any_eq_true] at hnear
  obtain ⟨t, ht, _⟩ := hnear
  constructor
  · intro hfires
    refine ⟨?_, ?_, ?_⟩
    · intro _ other hother job hjob
      rw [hnext, Option.some.injEq] at hother
      rw [← hother, hfind, Option.some.injEq] at hjob
      rw [← hjob]
      exact (fires_iff_not_dueOnce ht).mp hfires.fires
    · intro _ hnothing
      rw [hnothing newNext hnext] at hfind
      cases hfind
    · exact fun htag i k first other _ hfirst _ htopic _ =>
        absurd htopic (not_sameTopic hnone.1 htag hfirst)
  · intro hright
    refine ⟨List.mem_of_find?_eq_some hfind, henabled, hchannel, hrecipient, ?_, ?_⟩
    · exact (fires_iff_not_dueOnce ht).mpr (hright.nearby hnone newNext hnext _ hfind)
    · exact fun htag i old hold htopic => absurd htopic (not_sameTopic hnone.1 htag hold)

theorem fulfil_fresh_iff (hreadable : (loadStore file).Readable)
    (hlater : request.schedule.kind = .once → ∃ t, next = some t ∧ now < t)
    (hnone : Unanswered request now (loadStore file).entries)
    (hnear : NothingNear request next (loadStore file).entries)
    (hschedule : ((loadStore file).entries.map Entry.job).find? request.sameSchedule = none) :
    WillFire request now file (fulfil newId request now next file .fresh).2
        (request.newJob newId next now) ↔
      Unmistaken request now next (loadStore file).entries := by
  refine iff_of_true ⟨?_, rfl, rfl, rfl, ?_, ?_⟩ ⟨?_, ?_, ?_⟩
  · rw [fulfil, loadStore_saveStore (hreadable.append _), CronStore.jobs, List.map_append]
    exact List.mem_append_right _ List.mem_cons_self
  · by_cases honce : request.schedule.kind = .once
    · exact Or.inr (hlater honce)
    · exact Or.inl honce
  · exact fun htag i old hold htopic => absurd htopic (not_sameTopic hnone.1 htag hold)
  · intro _ newNext hnext job hjob
    rw [hnear newNext hnext] at hjob
    cases hjob
  · intro _ _ job hjob
    rw [hschedule] at hjob
    cases hjob
  · exact fun htag i k first other _ hfirst _ htopic _ =>
      absurd htopic (not_sameTopic hnone.1 htag hfirst)

/-- The new message does not change whether the job will run, if it has a time. -/
theorem fires_reword_iff {job : CronJob} (henabled : job.enabled = true)
    (hkind : job.schedule.kind = request.schedule.kind)
    (hlater : request.schedule.kind = .once → ∃ t, next = some t ∧ now < t) :
    ((request.reword next now job).schedule.kind ≠ .once ∨
        ∃ t, (request.reword next now job).state.nextRunAtMs = some t ∧ now < t) ↔
      ¬ job.DueOnce now := by
  cases htime : job.state.nextRunAtMs with
  | none =>
      refine iff_of_true ?_ ?_
      · by_cases honce : request.schedule.kind = .once
        · simpa [JobRequest.reword, htime] using Or.inr (hlater honce)
        · exact Or.inl (hkind ▸ honce)
      · rintro ⟨_, t, ht, _⟩
        rw [htime] at ht
        cases ht
  | some t =>
      have hsame : (request.reword next now job).state.nextRunAtMs = some t := by
        simp [JobRequest.reword, henabled, htime]
      rw [hsame, ← htime]
      exact fires_iff_not_dueOnce htime

theorem fulfil_schedule_iff (hreadable : (loadStore file).Readable)
    (hlater : request.schedule.kind = .once → ∃ t, next = some t ∧ now < t)
    (hnone : Unanswered request now (loadStore file).entries)
    (hnear : NothingNear request next (loadStore file).entries)
    (hfound : firstWith request.sameSchedule (loadStore file).entries = some found) :
    WillFire request now file (fulfil newId request now next file (.schedule found)).2
        (request.reword next now found.entry.job) ↔
      Unmistaken request now next (loadStore file).entries := by
  have hfind := find_of_firstWith hfound
  obtain ⟨hsplit, hsame, _⟩ := firstWith_some hfound
  obtain ⟨henabled, hchannel, hrecipient⟩ :=
    JobRequest.reaches_iff.mp (JobRequest.reaches_of_sameSchedule hsame)
  have hfires := fires_reword_iff henabled (JobRequest.kind_of_sameSchedule hsame) hlater
  constructor
  · intro hright
    refine ⟨?_, ?_, ?_⟩
    · intro _ newNext hnext job hjob
      rw [hnear newNext hnext] at hjob
      cases hjob
    · intro _ _ job hjob
      rw [hfind, Option.some.injEq] at hjob
      rw [← hjob]
      exact hfires.mp hright.fires
    · exact fun htag i k first other _ hfirst _ htopic _ =>
        absurd htopic (not_sameTopic hnone.1 htag hfirst)
  · intro hright
    refine ⟨?_, ?_, hchannel, hrecipient, hfires.mpr (hright.schedule hnone hnear _ hfind), ?_⟩
    · rw [fulfil, loadStore_replaced hreadable hfound henabled]
      exact List.mem_append_right _ List.mem_cons_self
    · simp [JobRequest.reword, henabled]
    · exact fun htag i old hold htopic => absurd htopic (not_sameTopic hnone.1 htag hold)

/-- A job of the topic does not stand before the first one. -/
theorem length_le_of_sameTopic (hfront : ∀ entry ∈ found.front, request.sameTopic entry.job = false)
    {i : ℕ} {job : CronJob} (htopic : request.sameTopic job = true)
    (hjob : (found.front.map Entry.job ++
      found.entry.job :: found.back.map Entry.job)[i]? = some job) : found.front.length ≤ i := by
  by_contra hbefore
  rw [List.getElem?_append_left (by rw [List.length_map]; omega)] at hjob
  obtain ⟨entry, hentry, rfl⟩ := List.mem_map.mp (List.mem_of_getElem? hjob)
  rw [hfront entry hentry] at htopic
  cases htopic

theorem fulfil_topic_iff (hreadable : (loadStore file).Readable)
    (hlater : request.schedule.kind = .once → ∃ t, next = some t ∧ now < t)
    (htag : given request.topicTag ≠ none)
    (hfound : firstWith request.sameTopic (loadStore file).entries = some found) :
    WillFire request now file (fulfil newId request now next file (.topic found)).2
        (request.retopic next now found.entry.job) ↔
      Unmistaken request now next (loadStore file).entries := by
  have hfind := find_of_firstWith hfound
  obtain ⟨hsplit, hsame, hfront⟩ := firstWith_some hfound
  obtain ⟨henabled, hchannel, hrecipient⟩ :=
    JobRequest.reaches_iff.mp (JobRequest.reaches_of_sameTopic hsame)
  have hnotNone : ¬ NoTopic request (loadStore file).entries := by
    intro hnone
    have hnothing := hnone.resolve_left htag
    rw [hfind] at hnothing
    cases hnothing
  have hbefore : (loadStore file).entries.map Entry.job =
      found.front.map Entry.job ++ found.entry.job :: found.back.map Entry.job := by
    rw [hsplit, List.map_append, List.map_cons]
  have hafter : (loadStore (fulfil newId request now next file (.topic found)).2).jobs =
      found.front.map Entry.job ++
        request.retopic next now found.entry.job :: found.back.map Entry.job := by
    rw [fulfil, loadStore_replaced hreadable hfound henabled]
  have hlength : (found.front.map Entry.job).length = found.front.length := List.length_map _
  constructor
  · intro hright
    refine ⟨fun hunanswered => absurd hunanswered.1 hnotNone,
      fun hunanswered => absurd hunanswered.1 hnotNone, ?_⟩
    intro _ i k first other hik hi hk hfirst hother
    obtain ⟨new, hnew, hsays⟩ := hright.topic htag k other hk hother
    rw [hbefore] at hi hk
    have hplace := length_le_of_sameTopic hfront hfirst hi
    rw [hafter, getElem?_other (by omega) _ found.entry.job, hk, Option.some.injEq] at hnew
    rw [hnew]
    exact hsays
  · intro hright
    refine ⟨?_, henabled, hchannel, hrecipient, ?_, ?_⟩
    · rw [hafter]
      exact List.mem_append_right _ List.mem_cons_self
    · by_cases honce : request.schedule.kind = .once
      · exact Or.inr (hlater honce)
      · exact Or.inl honce
    · intro _ i old hold htopic
      rw [CronStore.jobs, hbefore] at hold
      rw [hafter]
      by_cases hplace : i = (found.front.map Entry.job).length
      · refine ⟨request.retopic next now found.entry.job, ?_, rfl, rfl⟩
        rw [hplace, List.getElem?_append_right (Nat.le_refl _), Nat.sub_self,
          List.getElem?_cons_zero]
      · rw [getElem?_other hplace _ found.entry.job]
        have hbehind := length_le_of_sameTopic hfront htopic hold
        refine ⟨old, hold, ?_⟩
        refine hright.topic htag found.front.length i found.entry.job old (by omega) ?_ ?_ hsame
          htopic
        · rw [hbefore, List.getElem?_append_right (by omega), hlength, Nat.sub_self,
            List.getElem?_cons_zero]
        · rw [hbefore]
          exact hold

end Fulfil

/-- The four comparisons keep the promise exactly where the first job that they find close by, or
of the same schedule, is no one-shot job that is due, and where a request for a topic leaves no
second job of it behind. -/
theorem addJob_willFire_iff {newId : Str} {now : ℤ} {request : JobRequest}
    {file after : StoreFile F} {job : CronJob}
    (h : addJob host newId now request file = .ok (job, after)) :
    WillFire request now file after job ↔
      Unmistaken request now (computeNextRun host request.schedule now)
        (loadStore file).entries := by
  obtain ⟨⟨next, hnext⟩, hversion, hanswer⟩ := addJob_eq_ok host h
  have hreadable := readable_loadStore hversion
  have hlater : request.schedule.kind = .once →
      ∃ t, computeNextRun host request.schedule now = some t ∧ now < t :=
    fun honce => ⟨next, hnext, lt_computeNextRun host honce hnext⟩
  have hcases := answers request now (computeNextRun host request.schedule now)
    (loadStore file).entries
  generalize answer request now (computeNextRun host request.schedule now)
    (loadStore file).entries = given at hanswer hcases
  cases hcases with
  | topic htag hfound =>
      obtain ⟨rfl, rfl⟩ := Prod.mk.inj hanswer
      exact fulfil_topic_iff newId hreadable hlater htag hfound
  | message htopic hfound =>
      obtain ⟨rfl, rfl⟩ := Prod.mk.inj hanswer
      exact fulfil_message_iff htopic hfound
  | nearby hnone hnew hfound =>
      obtain ⟨rfl, rfl⟩ := Prod.mk.inj hanswer
      exact fulfil_nearby_iff hnone hnew hfound
  | schedule hnone hnear hfound =>
      obtain ⟨rfl, rfl⟩ := Prod.mk.inj hanswer
      exact fulfil_schedule_iff newId hreadable hlater hnone hnear hfound
  | fresh hnone hnear hschedule =>
      obtain ⟨rfl, rfl⟩ := Prod.mk.inj hanswer
      exact fulfil_fresh_iff newId hreadable hlater hnone hnear hschedule

end Cron
end CodeCub

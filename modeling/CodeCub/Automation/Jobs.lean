import CodeCub.Automation.Schedules

/-!
# Jobs and their store

A job is read from a mapping, which comes from a caller or from the JSON file of the
store, and written back to one.  Reading fills in what is missing; reading what was
written gives the job back, except that a completed `at` job gets its old time again.
-/

namespace CodeCub
namespace Automation

open Python

/-- The schedule type with the schedule. -/
inductive Schedule (F : Type) where
  | at (time : String)
  | every (seconds : F)
  | cron (expression : String)
  deriving DecidableEq, Repr

/-- `metadata` is the dictionary of that name, `none` when it is empty. -/
structure CronJob (F M : Type) where
  jobId : String
  sessionId : String
  message : String
  schedule : Schedule F
  conversationId : String := ""
  enabled : Bool := true
  nextRunAt : String := ""
  lastSubmittedAt : String := ""
  lastError : String := ""
  status : String := "scheduled"
  metadata : Option M := none
  deriving DecidableEq, Repr

/-- A mapping with string keys. -/
abbrev Mapping (F M : Type) := String → Option (PyValue F M)

inductive ScheduleKind where
  | at
  | every
  | cron
  deriving DecidableEq, Repr

def ScheduleKind.name : ScheduleKind → String
  | .at => "at"
  | .every => "every"
  | .cron => "cron"

section Reading

variable {F M : Type} (host : Host F M)

/-- `raw.get(key)`. -/
def Mapping.get (raw : Mapping F M) (key : String) : PyValue F M := (raw key).getD .none

/-- `[A-Za-z0-9_.-]{1,96}` matches the whole text. -/
def validJobId (l : List Char) : Bool :=
  1 ≤ l.length && l.length ≤ 96 && l.all fun c =>
    ('A' ≤ c && c ≤ 'Z') || ('a' ≤ c && c ≤ 'z') || ('0' ≤ c && c ≤ '9') || c = '_' || c = '.' ||
      c = '-'

def isNone : PyValue F M → Bool
  | .none => true
  | _ => false

/-- No letter outside ASCII is lowered to a letter of the three names. -/
def kindOf (name : String) : Option ScheduleKind :=
  let lowered := String.ofList (name.toList.map Char.toLower)
  if lowered = "at" then some .at
  else if lowered = "every" then some .every
  else if lowered = "cron" then some .cron
  else none

def readKind (raw : Mapping F M) : Except Raised ScheduleKind :=
  let name := strip (PyValue.orText host [raw.get "schedule_type", raw.get "type"])
  if name = "" then
    .ok (if ¬ isNone (raw.get "at") then .at else if ¬ isNone (raw.get "cron") then .cron else .every)
  else
    match kindOf name with
    | some kind => .ok kind
    | none =>
        .error (.cronScheduleError "cron schedule type must be at, every, or cron")

def readSchedule (raw : Mapping F M) (kind : ScheduleKind) : Except Raised (Schedule F) :=
  let value := if isNone (raw.get kind.name) then raw.get "schedule" else raw.get kind.name
  match kind with
  | .at => do
      let time ← parseDatetime host value
      .ok (.at time.isoformat)
  | .every => do
      let seconds ← parseEvery host value
      .ok (.every seconds)
  | .cron => do
      let expression := strip (PyValue.orText host [value])
      let _ ← parseCron host expression
      .ok (.cron expression)

/-- The next time of a job that repeats; an `at` job has its own. -/
def nextAfter (schedule : Schedule F) (current : DateTime) : Except Raised String :=
  match schedule with
  | .at time => .ok time
  | .every seconds =>
      match (host.micros seconds).bind current.add with
      | some next => .ok next.isoformat
      | none => .error .overflowError
  | .cron expression => do
      let next ← cronNext host expression current
      .ok next.isoformat

def readNextRun (raw : Mapping F M) (schedule : Schedule F) (now : DateTime) :
    Except Raised String :=
  let text := strip (PyValue.orText host [raw.get "next_run_at"])
  if text = "" then nextAfter host schedule now
  else do
    let next ← parseDatetime host (.str text)
    .ok next.isoformat

def readMetadata : PyValue F M → Option M
  | .mapping content => content
  | _ => none

/-- `CronJob.from_mapping`; `none` is an argument that is no mapping. -/
def fromMapping (raw : Option (Mapping F M)) (now : DateTime) : Except Raised (CronJob F M) :=
  match raw with
  | none => .error (.cronScheduleError "cron job must be an object")
  | some raw => do
      let jobId := strip (PyValue.orText host [raw.get "id", raw.get "job_id"])
      if !validJobId jobId.toList then .error (.cronScheduleError "cron job id is invalid")
      else
        let sessionId := strip (PyValue.orText host [raw.get "session_id"])
        let message := strip (PyValue.orText host [raw.get "message"])
        if sessionId = "" ∨ message = "" then
          .error (.cronScheduleError "cron job requires session_id and message")
        else
          let kind ← readKind host raw
          let schedule ← readSchedule host raw kind
          let nextRunAt ← readNextRun host raw schedule now
          let conversationId := PyValue.orText host [raw.get "conversation_id", .str sessionId]
          let status := PyValue.orText host [raw.get "status", .str "scheduled"]
          .ok {
            jobId, sessionId, message, schedule, nextRunAt, conversationId, status
            enabled := ((raw "enabled").getD (.bool true)).truthy host
            lastSubmittedAt := PyValue.orText host [raw.get "last_submitted_at"]
            lastError := PyValue.orText host [raw.get "last_error"]
            metadata := readMetadata (raw.get "metadata") }

end Reading

namespace Schedule

variable {F : Type}

def kind : Schedule F → ScheduleKind
  | .at _ => .at
  | .every _ => .every
  | .cron _ => .cron

def toValue {M : Type} : Schedule F → PyValue F M
  | .at time => .str time
  | .every seconds => .float seconds
  | .cron expression => .str expression

end Schedule

namespace CronJob

variable {F M : Type}

def toDict (job : CronJob F M) : Mapping F M := fun key =>
  if key = "id" then some (.str job.jobId)
  else if key = "session_id" then some (.str job.sessionId)
  else if key = "conversation_id" then some (.str job.conversationId)
  else if key = "message" then some (.str job.message)
  else if key = "schedule_type" then some (.str job.schedule.kind.name)
  else if key = "schedule" then some job.schedule.toValue
  else if key = "enabled" then some (.bool job.enabled)
  else if key = "next_run_at" then some (.str job.nextRunAt)
  else if key = "last_submitted_at" then some (.str job.lastSubmittedAt)
  else if key = "last_error" then some (.str job.lastError)
  else if key = "status" then some (.str job.status)
  else if key = "metadata" then some (.mapping job.metadata)
  else none

end CronJob

/-- `_jobs`: the dictionary from the id of a job to the job, in insertion order. -/
structure JobTable (F M : Type) where
  jobs : List (CronJob F M) := []
  nodup : (jobs.map CronJob.jobId).Nodup := by simp

namespace JobTable

variable {F M : Type}

def find (table : JobTable F M) (jobId : String) : Option (CronJob F M) :=
  table.jobs.find? fun job => job.jobId = jobId

/-- The jobs are changed in place; a change keeps the id. -/
def update (table : JobTable F M) (f : CronJob F M → CronJob F M)
    (hid : ∀ job, (f job).jobId = job.jobId) : JobTable F M where
  jobs := table.jobs.map f
  nodup := by
    rw [List.map_map, show CronJob.jobId ∘ f = CronJob.jobId from funext hid]
    exact table.nodup

/-- `_jobs[job.job_id] = job` for a new id. -/
def insert (table : JobTable F M) (job : CronJob F M)
    (hnew : ∀ other ∈ table.jobs, other.jobId ≠ job.jobId) : JobTable F M where
  jobs := table.jobs ++ [job]
  nodup := by
    rw [List.map_append, List.nodup_append]
    refine ⟨table.nodup, List.nodup_singleton _, ?_⟩
    intro id hid other hother hsame
    rw [List.map_singleton, List.mem_singleton] at hother
    obtain ⟨old, hold, rfl⟩ := List.mem_map.mp hid
    exact hnew old hold (hsame.trans hother)

/-- The new state of the job with this id. -/
def assign (table : JobTable F M) (job : CronJob F M) : JobTable F M :=
  table.update (fun other => if other.jobId = job.jobId then job else other) (by
    intro other
    split
    · next hsame => exact hsame.symm
    · rfl)

/-- `jobs[job.job_id] = job` of `load`: a later entry with the same id takes the place of
the earlier one. -/
def put (table : JobTable F M) (job : CronJob F M) : JobTable F M :=
  if h : ∀ other ∈ table.jobs, other.jobId ≠ job.jobId then table.insert job h
  else table.assign job

/-! ### Looking up a job -/

theorem find_eq_some_iff {table : JobTable F M} {jobId : String} {job : CronJob F M} :
    table.find jobId = some job ↔ job ∈ table.jobs ∧ job.jobId = jobId := by
  constructor
  · intro h
    exact ⟨List.mem_of_find?_eq_some h, by simpa using List.find?_some h⟩
  · rintro ⟨hjob, rfl⟩
    cases hfound : table.find job.jobId with
    | none => simpa using List.find?_eq_none.mp hfound job hjob
    | some other =>
        have hsame : other.jobId = job.jobId := by simpa using List.find?_some hfound
        rw [List.inj_on_of_nodup_map table.nodup (List.mem_of_find?_eq_some hfound) hjob hsame]

theorem find_of_mem {table : JobTable F M} {job : CronJob F M} (h : job ∈ table.jobs) :
    table.find job.jobId = some job := find_eq_some_iff.mpr ⟨h, rfl⟩

theorem find_update (table : JobTable F M) {f : CronJob F M → CronJob F M}
    (hid : ∀ job, (f job).jobId = job.jobId) (jobId : String) :
    (table.update f hid).find jobId = (table.find jobId).map f := by
  simp only [find, update, List.find?_map]
  congr 2
  funext job
  simp [hid]

/-- An assignment puts the new state of the job in the place of the old one. -/
theorem find_assign (table : JobTable F M) (job : CronJob F M) (jobId : String) :
    (table.assign job).find jobId =
      if jobId = job.jobId then (table.find jobId).map (fun _ => job) else table.find jobId := by
  rw [assign, find_update]
  cases hfound : table.find jobId with
  | none => simp
  | some old =>
      have hid := (find_eq_some_iff.mp hfound).2
      by_cases hsame : jobId = job.jobId
      · simp [hid, hsame]
      · simp [hid, hsame]

theorem mem_assign {table : JobTable F M} {job other : CronJob F M}
    (h : other ∈ (table.assign job).jobs) : other = job ∨ other ∈ table.jobs := by
  obtain ⟨old, hold, hother⟩ := List.mem_map.mp h
  by_cases hsame : old.jobId = job.jobId
  · rw [if_pos hsame] at hother
    exact Or.inl hother.symm
  · rw [if_neg hsame] at hother
    exact Or.inr (hother ▸ hold)

end JobTable

/-- The file of a `CronStore`: absent, or the list of mappings under `jobs`. -/
abbrev StoreFile (F M : Type) := Option (List (Mapping F M))

/-- `CronStore.save`. -/
def saveJobs {F M : Type} (table : JobTable F M) : StoreFile F M :=
  some (table.jobs.map CronJob.toDict)

/-- `CronStore.load`. -/
def loadJobs {F M : Type} (host : Host F M) (now : DateTime) : StoreFile F M →
    Except Raised (JobTable F M)
  | none => .ok {}
  | some entries => do
      let jobs ← entries.mapM fun raw => fromMapping host (some raw) now
      .ok (jobs.foldl JobTable.put {})

/-! ## What is accepted is well formed -/

theorem mem_of_mapM_ok {α β : Type} {f : α → Except Raised β} {l : List α} {results : List β}
    (h : l.mapM f = .ok results) {b : β} (hb : b ∈ results) : ∃ a ∈ l, f a = .ok b := by
  induction l generalizing results with
  | nil =>
      cases h
      cases hb
  | cons a rest ih =>
      rw [List.mapM_cons] at h
      obtain ⟨first, hfirst, h⟩ := bind_eq_ok h
      obtain ⟨others, hothers, h⟩ := bind_eq_ok h
      cases h
      rcases List.mem_cons.mp hb with rfl | hb
      · exact ⟨a, List.mem_cons_self, hfirst⟩
      · obtain ⟨a', ha', hb⟩ := ih hothers hb
        exact ⟨a', List.mem_cons_of_mem _ ha', hb⟩

theorem mapM_map_ok {α β γ : Type} {f : β → Except Raised γ} {k : α → β} {g : α → γ} {l : List α}
    (h : ∀ a ∈ l, f (k a) = .ok (g a)) : (l.map k).mapM f = .ok (l.map g) := by
  induction l with
  | nil => rfl
  | cons a rest ih =>
      rw [List.map_cons, List.mapM_cons, h a List.mem_cons_self, ok_bind,
        ih fun other hother => h other (List.mem_cons_of_mem _ hother), ok_bind]
      rfl

/-- The schedule is in the form in which its reader leaves it. -/
def Schedule.WellFormed {F M : Type} (host : Host F M) : Schedule F → Prop
  | .at time => ∃ d : DateTime, time = d.isoformat
  | .every seconds => host.nonpos seconds = false
  | .cron expression => strip expression = expression ∧
      ∃ fields, parseCron host expression = .ok fields

structure CronJob.WellFormed {F M : Type} (host : Host F M) (job : CronJob F M) : Prop where
  id : validJobId job.jobId.toList = true
  strippedId : strip job.jobId = job.jobId
  session : strip job.sessionId = job.sessionId ∧ job.sessionId ≠ ""
  message : strip job.message = job.message ∧ job.message ≠ ""
  schedule : job.schedule.WellFormed host
  next : (∃ d : DateTime, job.nextRunAt = d.isoformat) ∨
    (job.nextRunAt = "" ∧ ∃ time, job.schedule = .at time)

section WellFormed

variable {F M : Type} {host : Host F M}

theorem orText_str {s : String} (hs : s ≠ "") (rest : List (PyValue F M)) :
    PyValue.orText host (.str s :: rest) = s := by
  rw [PyValue.orText, if_pos (by simpa [PyValue.truthy] using hs)]
  rfl

theorem orText_str_last (s : String) : PyValue.orText host [.str s] = s := by
  by_cases hs : s = ""
  · subst hs
    rfl
  · exact orText_str hs []

theorem readSchedule_wellFormed {raw : Mapping F M} {kind : ScheduleKind} {schedule : Schedule F}
    (h : readSchedule host raw kind = .ok schedule) : schedule.WellFormed host := by
  unfold readSchedule at h
  cases kind with
  | «at» =>
      obtain ⟨time, -, h⟩ := bind_eq_ok h
      cases h
      exact ⟨time, rfl⟩
  | every =>
      obtain ⟨seconds, hseconds, h⟩ := bind_eq_ok h
      cases h
      rw [parseEvery] at hseconds
      obtain ⟨x, -, hx⟩ := bind_eq_ok hseconds
      split at hx
      · cases hx
      · next hpos =>
          cases hx
          simpa [Schedule.WellFormed] using hpos
  | cron =>
      obtain ⟨fields, hfields, h⟩ := bind_eq_ok h
      cases h
      exact ⟨strip_strip _, fields, hfields⟩

theorem nextAfter_isoformat {schedule : Schedule F} (hs : schedule.WellFormed host)
    {now : DateTime} {next : String} (h : nextAfter host schedule now = .ok next) :
    ∃ d : DateTime, next = d.isoformat := by
  unfold nextAfter at h
  cases schedule with
  | «at» time =>
      cases h
      exact hs
  | every seconds =>
      simp only at h
      split at h
      · next d _ =>
          cases h
          exact ⟨d, rfl⟩
      · cases h
  | cron expression =>
      obtain ⟨d, -, h⟩ := bind_eq_ok h
      cases h
      exact ⟨d, rfl⟩

theorem readNextRun_isoformat {raw : Mapping F M} {schedule : Schedule F}
    (hs : schedule.WellFormed host) {now : DateTime} {next : String}
    (h : readNextRun host raw schedule now = .ok next) : ∃ d : DateTime, next = d.isoformat := by
  unfold readNextRun at h
  simp only at h
  split at h
  · exact nextAfter_isoformat hs h
  · obtain ⟨d, -, h⟩ := bind_eq_ok h
    cases h
    exact ⟨d, rfl⟩

theorem fromMapping_wellFormed {raw : Option (Mapping F M)} {now : DateTime} {job : CronJob F M}
    (h : fromMapping host raw now = .ok job) : job.WellFormed host := by
  cases raw with
  | none => cases h
  | some raw =>
      simp only [fromMapping] at h
      split at h
      · cases h
      · next hid =>
          split at h
          · cases h
          · next hnonempty =>
              rw [not_or] at hnonempty
              obtain ⟨kind, -, h⟩ := bind_eq_ok h
              obtain ⟨schedule, hschedule, h⟩ := bind_eq_ok h
              obtain ⟨next, hnext, h⟩ := bind_eq_ok h
              have hwell := readSchedule_wellFormed hschedule
              cases h
              exact
                { id := by simpa using hid
                  strippedId := strip_strip _
                  session := ⟨strip_strip _, hnonempty.1⟩
                  message := ⟨strip_strip _, hnonempty.2⟩
                  schedule := hwell
                  next := Or.inl (readNextRun_isoformat hwell hnext) }

/-! ## Reading what was written -/

/-- What comes back from the store: a job without a next time gets the time of its
schedule, and empty texts get their defaults. -/
def CronJob.restored (job : CronJob F M) : CronJob F M :=
  { job with
    nextRunAt :=
      if job.nextRunAt = "" then
        match job.schedule with
        | .at time => time
        | _ => ""
      else job.nextRunAt
    conversationId := if job.conversationId = "" then job.sessionId else job.conversationId
    status := if job.status = "" then "scheduled" else job.status }

theorem ScheduleKind.name_ne_empty (kind : ScheduleKind) : kind.name ≠ "" := by
  cases kind <;> decide

theorem ScheduleKind.strip_name (kind : ScheduleKind) : strip kind.name = kind.name := by
  cases kind <;> decide +kernel

theorem kindOf_name (kind : ScheduleKind) : kindOf kind.name = some kind := by
  cases kind <;> decide +kernel

theorem readKind_toDict (job : CronJob F M) :
    readKind host job.toDict = .ok job.schedule.kind := by
  have htype : job.toDict.get "schedule_type" = .str job.schedule.kind.name := by
    simp [Mapping.get, CronJob.toDict]
  rw [readKind]
  simp only [htype, orText_str job.schedule.kind.name_ne_empty, ScheduleKind.strip_name,
    if_neg job.schedule.kind.name_ne_empty, kindOf_name]

theorem readSchedule_toDict {job : CronJob F M} (h : job.schedule.WellFormed host) :
    readSchedule host job.toDict job.schedule.kind = .ok job.schedule := by
  have habsent : isNone (job.toDict.get job.schedule.kind.name) = true := by
    cases job.schedule with
    | «at» time => rfl
    | every seconds => rfl
    | cron expression => rfl
  have hvalue : job.toDict.get "schedule" = job.schedule.toValue := by
    simp [Mapping.get, CronJob.toDict]
  unfold readSchedule
  simp only [habsent, if_true, hvalue]
  cases hschedule : job.schedule with
  | «at» time =>
      rw [hschedule] at h
      obtain ⟨d, rfl⟩ := h
      simp only [Schedule.kind, Schedule.toValue, parseDatetime_isoformat, ok_bind]
  | every seconds =>
      rw [hschedule] at h
      have hpos : ¬ host.nonpos seconds = true := by
        rw [show host.nonpos seconds = false from h]
        decide
      simp only [Schedule.kind, Schedule.toValue, parseEvery, everySeconds, ok_bind, if_neg hpos]
  | cron expression =>
      rw [hschedule] at h
      obtain ⟨hstrip, fields, hfields⟩ := h
      simp only [Schedule.kind, Schedule.toValue, orText_str_last, hstrip, hfields, ok_bind]

theorem readNextRun_toDict {job : CronJob F M} (h : job.WellFormed host) (now : DateTime) :
    readNextRun host job.toDict job.schedule now = .ok job.restored.nextRunAt := by
  have hvalue : job.toDict.get "next_run_at" = .str job.nextRunAt := by
    simp [Mapping.get, CronJob.toDict]
  rw [readNextRun]
  simp only [hvalue, orText_str_last]
  rcases h.next with ⟨d, hd⟩ | ⟨hempty, time, htime⟩
  · rw [hd, d.strip_isoformat, if_neg d.isoformat_ne_empty, parseDatetime_isoformat]
    simp [CronJob.restored, hd, d.isoformat_ne_empty]
    rfl
  · rw [hempty, if_pos (by decide), htime]
    simp [CronJob.restored, hempty, htime, nextAfter]

/-- A job that was written is read back. -/
theorem fromMapping_toDict {job : CronJob F M} (h : job.WellFormed host) (now : DateTime) :
    fromMapping host (some job.toDict) now = .ok job.restored := by
  have hid : strip (PyValue.orText host [job.toDict.get "id", job.toDict.get "job_id"]) =
      job.jobId := by
    have hne : job.jobId ≠ "" := by
      intro hempty
      have hvalid := h.id
      rw [hempty] at hvalid
      cases hvalid
    have hvalue : job.toDict.get "id" = .str job.jobId := by simp [Mapping.get, CronJob.toDict]
    rw [hvalue, orText_str hne, h.strippedId]
  have hsession : strip (PyValue.orText host [job.toDict.get "session_id"]) = job.sessionId := by
    have hvalue : job.toDict.get "session_id" = .str job.sessionId := by
      simp [Mapping.get, CronJob.toDict]
    rw [hvalue, orText_str_last, h.session.1]
  have hmessage : strip (PyValue.orText host [job.toDict.get "message"]) = job.message := by
    have hvalue : job.toDict.get "message" = .str job.message := by
      simp [Mapping.get, CronJob.toDict]
    rw [hvalue, orText_str_last, h.message.1]
  have hdefault : ∀ (key a b : String), job.toDict.get key = .str a →
      PyValue.orText host [job.toDict.get key, .str b] = if a = "" then b else a := by
    intro key a b hkey
    rw [hkey]
    by_cases ha : a = ""
    · subst ha
      rw [if_pos rfl]
      exact orText_str_last b
    · rw [if_neg ha, orText_str ha]
  have hconversation := hdefault "conversation_id" job.conversationId job.sessionId
    (by simp [Mapping.get, CronJob.toDict])
  have hstatus := hdefault "status" job.status "scheduled" (by simp [Mapping.get, CronJob.toDict])
  have hsubmitted : PyValue.orText host [job.toDict.get "last_submitted_at"] =
      job.lastSubmittedAt := by
    have hvalue : job.toDict.get "last_submitted_at" = .str job.lastSubmittedAt := by
      simp [Mapping.get, CronJob.toDict]
    rw [hvalue, orText_str_last]
  have herror : PyValue.orText host [job.toDict.get "last_error"] = job.lastError := by
    have hvalue : job.toDict.get "last_error" = .str job.lastError := by
      simp [Mapping.get, CronJob.toDict]
    rw [hvalue, orText_str_last]
  have henabled : ((job.toDict "enabled").getD (.bool true)).truthy host = job.enabled := by
    simp [CronJob.toDict, PyValue.truthy]
  have hmetadata : readMetadata (job.toDict.get "metadata") = job.metadata := by
    simp [Mapping.get, CronJob.toDict, readMetadata]
  have hvalid : ¬ (!validJobId job.jobId.toList) = true := by simp [h.id]
  have hnonempty : ¬ (job.sessionId = "" ∨ job.message = "") := by
    rw [not_or]
    exact ⟨h.session.2, h.message.2⟩
  simp only [fromMapping, hid, hsession, hmessage, if_neg hvalid, if_neg hnonempty,
    readKind_toDict, ok_bind, readSchedule_toDict h.schedule, readNextRun_toDict h, hconversation,
    hstatus, hsubmitted, herror, henabled, hmetadata]
  simp only [CronJob.restored]

theorem put_jobs {table : JobTable F M} {job : CronJob F M}
    (h : ∀ other ∈ table.jobs, other.jobId ≠ job.jobId) :
    (table.put job).jobs = table.jobs ++ [job] := by
  rw [JobTable.put, dif_pos h]
  rfl

theorem foldl_put_jobs {jobs : List (CronJob F M)} {table : JobTable F M}
    (hnodup : ((table.jobs ++ jobs).map CronJob.jobId).Nodup) :
    (jobs.foldl JobTable.put table).jobs = table.jobs ++ jobs := by
  induction jobs generalizing table with
  | nil => exact (List.append_nil _).symm
  | cons job rest ih =>
      have hput : (table.put job).jobs = table.jobs ++ [job] := by
        apply put_jobs
        intro other hother hsame
        rw [List.map_append, List.nodup_append] at hnodup
        exact hnodup.2.2 _ (List.mem_map_of_mem hother) _ (List.mem_map_of_mem List.mem_cons_self)
          hsame
      rw [List.foldl_cons, ih (by rw [hput]; simpa using hnodup), hput]
      simp

/-- The jobs that come back from the store. -/
theorem loadJobs_saveJobs {table : JobTable F M} (hwell : ∀ job ∈ table.jobs, job.WellFormed host)
    (now : DateTime) :
    ∃ loaded, loadJobs host now (saveJobs table) = .ok loaded ∧
      loaded.jobs = table.jobs.map CronJob.restored := by
  refine ⟨(table.jobs.map CronJob.restored).foldl JobTable.put {}, ?_, foldl_put_jobs ?_⟩
  · have hread : (table.jobs.map CronJob.toDict).mapM (fun raw => fromMapping host (some raw) now) =
        .ok (table.jobs.map CronJob.restored) := by
      apply mapM_map_ok
      intro job hjob
      exact fromMapping_toDict (hwell job hjob) now
    rw [saveJobs, loadJobs, hread, ok_bind]
  · have hids : CronJob.jobId ∘ CronJob.restored = CronJob.jobId (F := F) (M := M) := rfl
    simpa [List.map_map, hids] using table.nodup

end WellFormed

end Automation
end CodeCub

import CodeCub.Python.Json

/-!
# The file of the cron jobs

`pico/proactive_engine/schedulers/cron`: the jobs, how a job is written into `jobs.json`, and
how the file is read.  The file is taken as the value that `json.loads` has of its text.  A
record that cannot be read stands in the list as a job that is switched off, and is written
back as it was.
-/

namespace CodeCub
namespace Cron

open Python

/-! ## Jobs -/

/-- `at` schedules run once. -/
inductive ScheduleKind
  | once
  | every
  | cron
  deriving DecidableEq, Repr

inductive PayloadKind
  | agentTurn
  | systemEvent
  deriving DecidableEq, Repr

inductive JobStatus
  | ok
  | error
  | skipped
  | expired
  | cancelled
  | incompatible
  deriving DecidableEq, Repr

structure CronSchedule where
  kind : ScheduleKind
  atMs : Option ℤ := none
  everyMs : Option ℤ := none
  expr : Option Str := none
  tz : Option Str := none
  deriving DecidableEq

/-- `recipient` is `to`. -/
structure CronPayload where
  kind : PayloadKind := .agentTurn
  message : Str := []
  deliver : Bool := false
  channel : Option Str := none
  recipient : Option Str := none
  topicTag : Option Str := none
  deriving DecidableEq

structure CronJobState where
  nextRunAtMs : Option ℤ := none
  lastRunAtMs : Option ℤ := none
  lastStatus : Option JobStatus := none
  lastError : Option Str := none
  claimedByPid : Option ℤ := none
  claimedAtMs : Option ℤ := none
  silentFireCount : ℤ := 0
  deriving DecidableEq

structure CronJob where
  id : Str
  name : Str
  enabled : Bool := true
  schedule : CronSchedule
  payload : CronPayload := {}
  state : CronJobState := {}
  createdAtMs : ℤ := 0
  updatedAtMs : ℤ := 0
  deleteAfterRun : Bool := false
  silentFireLimit : Option ℤ := some 12
  deriving DecidableEq

def ScheduleKind.text : ScheduleKind → Str
  | .once => "at".toList
  | .every => "every".toList
  | .cron => "cron".toList

def PayloadKind.text : PayloadKind → Str
  | .agentTurn => "agent_turn".toList
  | .systemEvent => "system_event".toList

def JobStatus.text : JobStatus → Str
  | .ok => "ok".toList
  | .error => "error".toList
  | .skipped => "skipped".toList
  | .expired => "expired".toList
  | .cancelled => "cancelled".toList
  | .incompatible => "incompatible".toList

/-- The one of `all` with this name. -/
def named {A : Type} (text : A → Str) (all : List A) (name : Str) : Option A :=
  all.find? fun a => text a = name

def ScheduleKind.ofText : Str → Option ScheduleKind :=
  named ScheduleKind.text [.once, .every, .cron]

def PayloadKind.ofText : Str → Option PayloadKind :=
  named PayloadKind.text [.agentTurn, .systemEvent]

def JobStatus.ofText : Str → Option JobStatus :=
  named JobStatus.text [.ok, .error, .skipped, .expired, .cancelled, .incompatible]

@[simp] theorem ScheduleKind.ofText_text (kind : ScheduleKind) :
    ScheduleKind.ofText kind.text = some kind := by
  cases kind <;> decide

@[simp] theorem PayloadKind.ofText_text (kind : PayloadKind) :
    PayloadKind.ofText kind.text = some kind := by
  cases kind <;> decide

@[simp] theorem JobStatus.ofText_text (status : JobStatus) :
    JobStatus.ofText status.text = some status := by
  cases status <;> decide

/-! ## Reading a record -/

variable {F : Type}

/-- What is read, or the text of the error. -/
abbrev Reads (A : Type) := Except Str A

/-- `raw[key]`. -/
def item (fields : List (Str × Json Str F)) (key : String) : Reads (Json Str F) :=
  match fields.lookup key.toList with
  | some value => .ok value
  | none => .error ('\'' :: key.toList ++ ['\''])

/-- `raw.get(key, default)`. -/
def itemOr (fields : List (Str × Json Str F)) (key : String) (default : Json Str F) :
    Json Str F :=
  (fields.lookup key.toList).getD default

def expectObject (value : Json Str F) (error : String) : Reads (List (Str × Json Str F)) :=
  match value with
  | .obj fields => .ok fields
  | _ => .error error.toList

def expectArray (value : Json Str F) (error : String) : Reads (List (Json Str F)) :=
  match value with
  | .arr items => .ok items
  | _ => .error error.toList

def expectBool (value : Json Str F) (field : String) : Reads Bool :=
  match value with
  | .bool b => .ok b
  | _ => .error (field.toList ++ " must be a boolean".toList)

def expectInt (value : Json Str F) (field : String) : Reads ℤ :=
  match value with
  | .int n => .ok n
  | _ => .error (field.toList ++ " must be an integer".toList)

/-- `_expect_int` with `allow_none`. -/
def expectIntOrNull (value : Json Str F) (field : String) : Reads (Option ℤ) :=
  match value with
  | .null => .ok none
  | .int n => .ok (some n)
  | _ => .error (field.toList ++ " must be an integer or null".toList)

def expectStr (value : Json Str F) (field : String) : Reads Str :=
  match value with
  | .str s => .ok s
  | _ => .error (field.toList ++ " must be a string".toList)

/-- `_expect_str` with `allow_none`. -/
def expectStrOrNull (value : Json Str F) (field : String) : Reads (Option Str) :=
  match value with
  | .null => .ok none
  | .str s => .ok (some s)
  | _ => .error (field.toList ++ " must be a string or null".toList)

def supported {A : Type} (value : Option A) (what : String) (text : Str) : Reads A :=
  match value with
  | some a => .ok a
  | none => .error ("unsupported ".toList ++ what.toList ++ " '".toList ++ text ++ ['\''])

def readStatus (text : Option Str) : Reads (Option JobStatus) :=
  match text with
  | none => .ok none
  | some text => (supported (JobStatus.ofText text) "job status" text).map some

def deserializeSchedule (fields : List (Str × Json Str F)) : Reads CronSchedule := do
  let kindText ← expectStr (← item fields "kind") "schedule.kind"
  let kind ← supported (ScheduleKind.ofText kindText) "schedule kind" kindText
  let atMs ← expectIntOrNull (itemOr fields "atMs" .null) "schedule.atMs"
  let everyMs ← expectIntOrNull (itemOr fields "everyMs" .null) "schedule.everyMs"
  let expr ← expectStrOrNull (itemOr fields "expr" .null) "schedule.expr"
  let tz ← expectStrOrNull (itemOr fields "tz" .null) "schedule.tz"
  return { kind, atMs, everyMs, expr, tz }

def deserializePayload (fields : List (Str × Json Str F)) : Reads CronPayload := do
  let kindText ← expectStr (itemOr fields "kind" (.str "agent_turn".toList)) "payload.kind"
  let kind ← supported (PayloadKind.ofText kindText) "payload kind" kindText
  let message ← expectStr (itemOr fields "message" (.str [])) "payload.message"
  let deliver ← expectBool (itemOr fields "deliver" (.bool false)) "payload.deliver"
  let channel ← expectStrOrNull (itemOr fields "channel" .null) "payload.channel"
  let recipient ← expectStrOrNull (itemOr fields "to" .null) "payload.to"
  let topicTag ← expectStrOrNull (itemOr fields "topicTag" .null) "payload.topicTag"
  return { kind, message, deliver, channel, recipient, topicTag }

def deserializeState (fields : List (Str × Json Str F)) : Reads CronJobState := do
  let nextRunAtMs ← expectIntOrNull (itemOr fields "nextRunAtMs" .null) "state.nextRunAtMs"
  let lastRunAtMs ← expectIntOrNull (itemOr fields "lastRunAtMs" .null) "state.lastRunAtMs"
  let lastStatus ← readStatus
    (← expectStrOrNull (itemOr fields "lastStatus" .null) "state.lastStatus")
  let lastError ← expectStrOrNull (itemOr fields "lastError" .null) "state.lastError"
  let claimedByPid ← expectIntOrNull (itemOr fields "claimedByPid" .null) "state.claimedByPid"
  let claimedAtMs ← expectIntOrNull (itemOr fields "claimedAtMs" .null) "state.claimedAtMs"
  let silentFireCount ← expectInt (itemOr fields "silentFireCount" (.int 0))
    "state.silentFireCount"
  return { nextRunAtMs, lastRunAtMs, lastStatus, lastError, claimedByPid, claimedAtMs,
           silentFireCount }

/-- `_deserialize_job`. -/
def deserializeJob (raw : Json Str F) : Reads CronJob := do
  let fields ← expectObject raw "job record must be an object"
  let id ← expectStr (← item fields "id") "job.id"
  let name ← expectStr (← item fields "name") "job.name"
  let enabled ← expectBool (itemOr fields "enabled" (.bool true)) "job.enabled"
  let scheduleData ← item fields "schedule"
  let payloadData ← item fields "payload"
  let scheduleFields ← expectObject scheduleData "schedule must be an object"
  let payloadFields ← expectObject payloadData "payload must be an object"
  let schedule ← deserializeSchedule scheduleFields
  let payload ← deserializePayload payloadFields
  let stateFields ← expectObject (itemOr fields "state" (.obj [])) "state must be an object"
  let state ← deserializeState stateFields
  let createdAtMs ← expectInt (itemOr fields "createdAtMs" (.int 0)) "job.createdAtMs"
  let updatedAtMs ← expectInt (itemOr fields "updatedAtMs" (.int 0)) "job.updatedAtMs"
  let deleteAfterRun ← expectBool (itemOr fields "deleteAfterRun" (.bool false))
    "job.deleteAfterRun"
  let silentFireLimit ← expectIntOrNull (itemOr fields "silentFireLimit" (.int 12))
    "job.silentFireLimit"
  return { id, name, enabled, schedule, payload, state, createdAtMs, updatedAtMs,
           deleteAfterRun, silentFireLimit }

/-! ## Writing a record -/

def optInt : Option ℤ → Json Str F
  | some n => .int n
  | none => .null

def optStr : Option Str → Json Str F
  | some s => .str s
  | none => .null

def CronSchedule.fields (schedule : CronSchedule) : List (Str × Json Str F) :=
  [("kind".toList, .str schedule.kind.text), ("atMs".toList, optInt schedule.atMs),
    ("everyMs".toList, optInt schedule.everyMs), ("expr".toList, optStr schedule.expr),
    ("tz".toList, optStr schedule.tz)]

def CronPayload.fields (payload : CronPayload) : List (Str × Json Str F) :=
  [("kind".toList, .str payload.kind.text), ("message".toList, .str payload.message),
    ("deliver".toList, .bool payload.deliver), ("channel".toList, optStr payload.channel),
    ("to".toList, optStr payload.recipient), ("topicTag".toList, optStr payload.topicTag)]

def CronJobState.fields (state : CronJobState) : List (Str × Json Str F) :=
  [("nextRunAtMs".toList, optInt state.nextRunAtMs),
    ("lastRunAtMs".toList, optInt state.lastRunAtMs),
    ("lastStatus".toList, optStr (state.lastStatus.map JobStatus.text)),
    ("lastError".toList, optStr state.lastError),
    ("claimedByPid".toList, optInt state.claimedByPid),
    ("claimedAtMs".toList, optInt state.claimedAtMs),
    ("silentFireCount".toList, .int state.silentFireCount)]

/-- `_serialize_job` of a job that was read or made. -/
def CronJob.fields (job : CronJob) : List (Str × Json Str F) :=
  [("id".toList, .str job.id), ("name".toList, .str job.name),
    ("enabled".toList, .bool job.enabled), ("schedule".toList, .obj job.schedule.fields),
    ("payload".toList, .obj job.payload.fields), ("state".toList, .obj job.state.fields),
    ("createdAtMs".toList, .int job.createdAtMs), ("updatedAtMs".toList, .int job.updatedAtMs),
    ("deleteAfterRun".toList, .bool job.deleteAfterRun),
    ("silentFireLimit".toList, optInt job.silentFireLimit)]

/-! ### A record that is written is read back -/

@[simp] theorem expectIntOrNull_optInt (n : Option ℤ) (field : String) :
    expectIntOrNull (optInt n : Json Str F) field = .ok n := by
  cases n <;> rfl

@[simp] theorem expectStrOrNull_optStr (s : Option Str) (field : String) :
    expectStrOrNull (optStr s : Json Str F) field = .ok s := by
  cases s <;> rfl

@[simp] theorem readStatus_text (status : Option JobStatus) :
    readStatus (status.map JobStatus.text) = .ok status := by
  cases status with
  | none => rfl
  | some status => simp [readStatus, supported, Except.map]

theorem deserializeSchedule_fields (schedule : CronSchedule) :
    deserializeSchedule (schedule.fields : List (Str × Json Str F)) = .ok schedule := by
  simp [deserializeSchedule, CronSchedule.fields, item, itemOr, List.lookup_cons, expectStr,
    supported, bind, Except.bind, pure, Except.pure]

theorem deserializePayload_fields (payload : CronPayload) :
    deserializePayload (payload.fields : List (Str × Json Str F)) = .ok payload := by
  simp [deserializePayload, CronPayload.fields, itemOr, List.lookup_cons, expectStr, expectBool,
    supported, bind, Except.bind, pure, Except.pure]

theorem deserializeState_fields (state : CronJobState) :
    deserializeState (state.fields : List (Str × Json Str F)) = .ok state := by
  simp [deserializeState, CronJobState.fields, itemOr, List.lookup_cons, expectInt, bind,
    Except.bind, pure, Except.pure]

theorem deserializeJob_fields (job : CronJob) :
    deserializeJob (.obj job.fields : Json Str F) = .ok job := by
  simp [deserializeJob, CronJob.fields, expectObject, item, itemOr, List.lookup_cons, expectStr,
    expectBool, expectInt, deserializeSchedule_fields, deserializePayload_fields,
    deserializeState_fields, bind, Except.bind, pure, Except.pure]

/-! ## The file -/

/-- A job of the list, with its record in the file where that cannot be read. -/
structure Entry (F : Type) where
  job : CronJob
  raw : Option (Json Str F) := none

inductive StoreFile (F : Type) where
  | missing
  | unreadable
  | value (data : Json Str F)

/-- The keys of the file that are not metadata. -/
def storeKeys : List Str := ["version".toList, "jobs".toList]

@[ext]
structure CronStore (F : Type) where
  version : ℤ
  entries : List (Entry F)
  metadata : List (Str × Json Str F)
  metadata_other : ∀ pair ∈ metadata, pair.1 ∉ storeKeys

/-- `CronStore()`. -/
def CronStore.empty : CronStore F where
  version := 1
  entries := []
  metadata := []
  metadata_other := by
    intro pair hpair
    cases hpair

def CronStore.jobs (store : CronStore F) : List CronJob := store.entries.map Entry.job

def fieldsOf : Json Str F → List (Str × Json Str F)
  | .obj fields => fields
  | _ => []

/-- A text that is not empty, or the default. -/
def textOr (value : Option (Json Str F)) (default : Str) : Str :=
  match value with
  | some (.str text) => if text = [] then default else text
  | _ => default

def intOr (value : Option (Json Str F)) (default : ℤ) : ℤ :=
  match value with
  | some (.int n) => n
  | _ => default

/-- `_incompatible_job`.  A time that is no integer counts as none. -/
def incompatibleJob (raw : Json Str F) (index : ℕ) (error : Str) : CronJob where
  id := textOr ((fieldsOf raw).lookup "id".toList)
    ("incompatible-".toList ++ (toString index).toList)
  name := textOr ((fieldsOf raw).lookup "name".toList) "Incompatible cron job".toList
  enabled := false
  schedule := { kind := .once }
  payload :=
    { message := textOr
        ((((fieldsOf raw).lookup "payload".toList).map fieldsOf).bind
          (List.lookup "message".toList)) [] }
  state := { lastStatus := some .incompatible, lastError := some error }
  createdAtMs := intOr ((fieldsOf raw).lookup "createdAtMs".toList) 0
  updatedAtMs := intOr ((fieldsOf raw).lookup "updatedAtMs".toList) 0

def readRecord (version : ℤ) (raw : Json Str F) : Reads CronJob :=
  if version = 1 then deserializeJob raw
  else .error ("unsupported store version '".toList ++ (toString version).toList ++ ['\''])

def readEntry (version : ℤ) (index : ℕ) (raw : Json Str F) : Entry F :=
  match readRecord version raw with
  | .ok job => ⟨job, none⟩
  | .error error => { job := incompatibleJob raw index error, raw := some raw }

def parseStore (data : Json Str F) : Reads (CronStore F) := do
  let fields ← expectObject data "cron store must be an object"
  let rawJobs ← expectArray (itemOr fields "jobs" (.arr [])) "cron store jobs must be an array"
  let version ← expectInt (itemOr fields "version" (.int 1)) "store.version"
  return {
    version
    entries := rawJobs.mapIdx (readEntry version)
    metadata := fields.filter fun pair => pair.1 ∉ storeKeys
    metadata_other := fun _ hpair => of_decide_eq_true (List.mem_filter.mp hpair).2 }

/-- `_load_store`, read again.  A file that cannot be read at all gives an empty store. -/
def loadStore : StoreFile F → CronStore F
  | .value data =>
      match parseStore data with
      | .ok store => store
      | .error _ => .empty
  | _ => .empty

/-- `_serialize_job`. -/
def Entry.record (entry : Entry F) : Json Str F :=
  match entry.raw with
  | some raw => raw
  | none => .obj entry.job.fields

/-- `_save_store`. -/
def saveStore (store : CronStore F) : StoreFile F :=
  .value (.obj (store.metadata ++
    [("version".toList, .int store.version), ("jobs".toList, .arr (store.entries.map Entry.record))]))

/-! ### A store that is saved is loaded -/

/-- The records of a store are read as they stand in it. -/
def CronStore.Readable (store : CronStore F) : Prop :=
  store.version = 1 ∧
    ∀ i entry, store.entries[i]? = some entry → readEntry 1 i entry.record = entry

theorem readEntry_job (index : ℕ) (job : CronJob) :
    readEntry 1 index (⟨job, none⟩ : Entry F).record = ⟨job, none⟩ := by
  rw [readEntry, readRecord, if_pos rfl, Entry.record, deserializeJob_fields]

theorem readEntry_record_readEntry (index : ℕ) (raw : Json Str F) :
    readEntry 1 index (readEntry 1 index raw).record = readEntry 1 index raw := by
  cases hread : readRecord 1 raw with
  | ok job =>
      have hentry : readEntry 1 index raw = ⟨job, none⟩ := by rw [readEntry, hread]
      rw [hentry, readEntry_job]
  | error error =>
      have hrecord : (readEntry 1 index raw).record = raw := by
        rw [readEntry, hread]
        rfl
      rw [hrecord]

theorem readable_empty : (CronStore.empty : CronStore F).Readable := by
  refine ⟨rfl, fun i entry hentry => ?_⟩
  rw [CronStore.empty, List.getElem?_nil] at hentry
  cases hentry

theorem readable_parseStore {data : Json Str F} {store : CronStore F}
    (h : parseStore data = .ok store) (hversion : store.version = 1) : store.Readable := by
  rw [parseStore] at h
  obtain ⟨fields, _, h⟩ := bind_eq_ok h
  obtain ⟨rawJobs, _, h⟩ := bind_eq_ok h
  obtain ⟨version, _, h⟩ := bind_eq_ok h
  obtain rfl := Except.ok.inj h
  obtain rfl : version = 1 := hversion
  refine ⟨rfl, fun i entry hentry => ?_⟩
  rw [List.getElem?_mapIdx, Option.map_eq_some_iff] at hentry
  obtain ⟨raw, _, rfl⟩ := hentry
  exact readEntry_record_readEntry i raw

/-- A store of version 1 that was loaded is readable. -/
theorem readable_loadStore {file : StoreFile F} (hversion : (loadStore file).version = 1) :
    (loadStore file).Readable := by
  cases file with
  | missing => exact readable_empty
  | unreadable => exact readable_empty
  | value data =>
      rw [loadStore] at hversion ⊢
      cases hparse : parseStore data with
      | ok store =>
          rw [hparse] at hversion
          exact readable_parseStore hparse hversion
      | error error => exact readable_empty

theorem lookup_metadata (store : CronStore F) {key : Str} (hkey : key ∈ storeKeys)
    (fields : List (Str × Json Str F)) :
    (store.metadata ++ fields).lookup key = fields.lookup key := by
  have hnone : store.metadata.lookup key = none := by
    rw [List.lookup_eq_none_iff]
    intro pair hpair
    rw [bne_iff_ne]
    exact fun hsame => store.metadata_other pair hpair (hsame ▸ hkey)
  rw [List.lookup_append, hnone, Option.none_or]

theorem filter_metadata (store : CronStore F) (fields : List (Str × Json Str F))
    (hfields : ∀ pair ∈ fields, pair.1 ∈ storeKeys) :
    (store.metadata ++ fields).filter (fun pair => pair.1 ∉ storeKeys) = store.metadata := by
  rw [List.filter_append, List.filter_eq_self.mpr, List.filter_eq_nil_iff.mpr, List.append_nil]
  · intro pair hpair
    simpa using hfields pair hpair
  · intro pair hpair
    simpa using store.metadata_other pair hpair

/-- A file that was saved has the version, the metadata and the records of its store. -/
theorem parseStore_saved (store : CronStore F) :
    parseStore (.obj (store.metadata ++ [("version".toList, .int store.version),
      ("jobs".toList, .arr (store.entries.map Entry.record))])) =
      .ok { store with
        entries := (store.entries.map Entry.record).mapIdx (readEntry store.version) } := by
  set fields : List (Str × Json Str F) := [("version".toList, .int store.version),
    ("jobs".toList, .arr (store.entries.map Entry.record))] with hfields
  have hjobs : itemOr (store.metadata ++ fields) "jobs" (.arr []) =
      .arr (store.entries.map Entry.record) := by
    rw [itemOr, lookup_metadata store (by decide), hfields]
    simp [List.lookup_cons]
  have hversion : itemOr (store.metadata ++ fields) "version" (.int 1) = .int store.version := by
    rw [itemOr, lookup_metadata store (by decide), hfields]
    simp
  have hkeys : ∀ pair ∈ fields, pair.1 ∈ storeKeys := by
    intro pair hpair
    rw [hfields, List.mem_cons, List.mem_singleton] at hpair
    obtain rfl | rfl := hpair
    · exact List.mem_cons_self
    · exact List.mem_cons_of_mem _ List.mem_cons_self
  have hmetadata := filter_metadata store fields hkeys
  rw [parseStore, expectObject, ok_bind, hjobs, expectArray, ok_bind, hversion, expectInt,
    ok_bind]
  exact congrArg Except.ok (CronStore.ext rfl rfl hmetadata)

theorem version_saveStore (store : CronStore F) :
    (loadStore (saveStore store)).version = store.version := by
  rw [saveStore, loadStore, parseStore_saved]

theorem loadStore_saveStore {store : CronStore F} (h : store.Readable) :
    loadStore (saveStore store) = store := by
  obtain ⟨hversion, hentries⟩ := h
  have hread : (store.entries.map Entry.record).mapIdx (readEntry store.version) =
      store.entries := by
    rw [hversion]
    refine List.ext_getElem? fun i => ?_
    rw [List.getElem?_mapIdx, List.getElem?_map, Option.map_map]
    cases hentry : store.entries[i]? with
    | none => rfl
    | some entry => rw [Option.map_some, Function.comp_apply, hentries i entry hentry]
  rw [saveStore, loadStore, parseStore_saved]
  exact CronStore.ext rfl hread rfl

/-! ### Stores that stay readable -/

/-- The element at one place of a list does not matter elsewhere. -/
theorem getElem?_other {A : Type} {front back : List A} {i : ℕ} (h : i ≠ front.length) (x y : A) :
    (front ++ x :: back)[i]? = (front ++ y :: back)[i]? := by
  rcases Nat.lt_or_gt_of_ne h with hbefore | hafter
  · rw [List.getElem?_append_left hbefore, List.getElem?_append_left hbefore]
  · have hlater : i - front.length = i - front.length - 1 + 1 := by omega
    rw [List.getElem?_append_right (by omega), List.getElem?_append_right (by omega), hlater,
      List.getElem?_cons_succ, List.getElem?_cons_succ]

theorem incompatible_of_raw {index : ℕ} {raw record : Json Str F}
    (h : (readEntry 1 index record).raw = some raw) :
    (readEntry 1 index record).job.enabled = false := by
  rw [readEntry] at h ⊢
  cases hread : readRecord 1 record with
  | ok job =>
      rw [hread] at h
      cases h
  | error error => rfl

namespace CronStore.Readable

variable {store : CronStore F} {front back : List (Entry F)} {entry : Entry F}

/-- A job that is switched on was read. -/
theorem raw_eq_none (h : store.Readable) (hentry : entry ∈ store.entries)
    (henabled : entry.job.enabled = true) : entry.raw = none := by
  obtain ⟨i, hi⟩ := List.mem_iff_getElem?.mp hentry
  have hread := h.2 i entry hi
  cases hraw : entry.raw with
  | none => rfl
  | some raw =>
      rw [← hread] at hraw henabled
      rw [incompatible_of_raw hraw] at henabled
      cases henabled

theorem edit (h : store.Readable) (hsplit : store.entries = front ++ entry :: back)
    (job : CronJob) :
    CronStore.Readable { store with entries := front ++ ⟨job, none⟩ :: back } := by
  refine ⟨h.1, fun i other hother => ?_⟩
  by_cases hplace : i = front.length
  · rw [hplace, List.getElem?_append_right (Nat.le_refl _), Nat.sub_self,
      List.getElem?_cons_zero, Option.some.injEq] at hother
    rw [← hother, readEntry_job]
  · rw [getElem?_other hplace _ entry, ← hsplit] at hother
    exact h.2 i other hother

theorem append (h : store.Readable) (job : CronJob) :
    CronStore.Readable { store with entries := store.entries ++ [⟨job, none⟩] } := by
  refine ⟨h.1, fun i other hother => ?_⟩
  rw [List.getElem?_append] at hother
  split at hother
  · exact h.2 i other hother
  · rw [List.getElem?_singleton] at hother
    split at hother
    · rw [← Option.some.inj hother, readEntry_job]
    · cases hother

end CronStore.Readable

end Cron
end CodeCub

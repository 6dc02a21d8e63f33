import CodeCub.Memory.Bounds
import CodeCub.Python.DateTime
import CodeCub.Python.Json

/-!
# The evidence store and the durable store

`codecub/memory_v2/evidence.py` and `durable.py`: the records, and how a store takes a new
one.  `T` stands for the seconds that `fromisoformat(..).timestamp()` reads and `F` for the
floats of a confidence.
-/

namespace CodeCub
namespace Memory

open Python

variable {F T : Type} [LinearOrder T]

/-- `_ts` in microseconds, of a text with an offset.  A text without one has a time that
depends on the zone of the machine. -/
def awareMicros (text : Str) : ℤ :=
  match DateTime.fromisoformat text with
  | some (d, some offset) => d.micros - offset - 719163 * 86400000000
  | _ => 0

/-! ## Evidence -/

inductive EvidenceStatus
  | fresh
  | stale
  | missing
  | superseded
  deriving DecidableEq, Repr

structure EvidenceRecord (F : Type) where
  evidenceId : Str
  path : Str
  kind : Str
  summary : Str
  symbol : Str
  createdAt : Str
  confidence : F
  status : EvidenceStatus
  tags : List Str
  deriving DecidableEq

/-- Retrieval identity: only the latest record per identity is considered. -/
def EvidenceRecord.identity (record : EvidenceRecord F) : Str × Str × Str :=
  (record.path, record.symbol, record.kind)

def EvidenceRecord.superseded (record : EvidenceRecord F) : Bool :=
  record.status = .superseded

structure EvidenceStore (F : Type) where
  maxRecords : ℤ
  records : List (EvidenceRecord F)
  deriving DecidableEq

namespace EvidenceStore

/-- The records of a store with the new one behind them.  Older records with the same
identity are superseded. -/
def appended (store : EvidenceStore F) (record : EvidenceRecord F) : List (EvidenceRecord F) :=
  store.records.map (fun existing =>
    if existing.status ≠ .superseded ∧ existing.identity = record.identity then
      { existing with status := .superseded }
    else existing) ++ [record]

/-- `add_evidence`, once the record is made. -/
def addEvidence (ts : Str → T) (store : EvidenceStore F) (record : EvidenceRecord F) :
    Option (EvidenceStore F) :=
  (enforceBounds (fun r => ts r.createdAt) store.maxRecords (store.appended record)).map
    fun records => { store with records }

/-- Latest available (non-superseded) records, statuses as they are. -/
def latestRecords (store : EvidenceStore F) : List (EvidenceRecord F) :=
  store.records.filter fun record => !record.superseded

end EvidenceStore

/-! ## Durable memory -/

inductive Topic
  | projectConventions
  | keyDecisions
  | dependencyFacts
  | userPreferences
  | buildAndTest
  | environmentConstraints
  | validatedWorkflows
  | knownPitfalls
  deriving DecidableEq, Repr

inductive DurableStatus
  | active
  | superseded
  | retired
  | rejected
  deriving DecidableEq, Repr

structure DurableRecord (F : Type) where
  memoryId : Str
  topic : Topic
  statement : Str
  rationale : Str
  evidenceRefs : List Str
  projectScope : Str
  tags : List Str
  createdAt : Str
  updatedAt : Str
  lastUsedAt : Str
  useCount : ℤ
  confidence : F
  status : DurableStatus
  sourceTaskIds : List Str
  sourceRunIds : List Str
  sourceEvidenceIds : List Str
  sourceUserStatement : Str
  supersedes : Str
  conflictWith : Str
  deriving DecidableEq

def DurableRecord.superseded (record : DurableRecord F) : Bool :=
  record.status = .superseded

structure DurableStore (F : Type) where
  maxRecords : ℤ
  records : List (DurableRecord F)
  deriving DecidableEq

namespace DurableStore

def appended (store : DurableStore F) (record : DurableRecord F) : List (DurableRecord F) :=
  store.records ++ [record]

def add (ts : Str → T) (store : DurableStore F) (record : DurableRecord F) :
    Option (DurableStore F) :=
  (enforceBounds (fun r => ts r.createdAt) store.maxRecords (store.appended record)).map
    fun records => { store with records }

def activeRecords (store : DurableStore F) : List (DurableRecord F) :=
  store.records.filter fun record => record.status = .active

end DurableStore

/-! ## What an add retires -/

/-- The store after the add lost superseded records first. -/
def EvidenceStore.RetiresFirst (ts : Str → T) (store : EvidenceStore F)
    (record : EvidenceRecord F) : Prop :=
  ∃ after, store.addEvidence ts record = some after ∧
    ∃ removed, RetiresSupersededFirst EvidenceRecord.superseded (fun r => ts r.createdAt)
      store.maxRecords (store.appended record) after.records removed

def DurableStore.RetiresFirst (ts : Str → T) (store : DurableStore F)
    (record : DurableRecord F) : Prop :=
  ∃ after, store.add ts record = some after ∧
    ∃ removed, RetiresSupersededFirst DurableRecord.superseded (fun r => ts r.createdAt)
      store.maxRecords (store.appended record) after.records removed

theorem exists_map_eq_some {A B : Type} {o : Option A} {f : A → B} {P : B → Prop} :
    (∃ b, o.map f = some b ∧ P b) ↔ ∃ a, o = some a ∧ P (f a) := by
  constructor
  · rintro ⟨b, hmap, hb⟩
    obtain ⟨a, ha, rfl⟩ := Option.map_eq_some_iff.mp hmap
    exact ⟨a, ha, hb⟩
  · rintro ⟨a, ha, hb⟩
    exact ⟨f a, by rw [ha, Option.map_some], hb⟩

/-- The loop meets the order exactly when the superseded records are among the oldest ones. -/
theorem EvidenceStore.retiresFirst_iff (ts : Str → T) (store : EvidenceStore F)
    (record : EvidenceRecord F) (hover : store.maxRecords < (store.appended record).length) :
    store.RetiresFirst ts record ↔ 0 ≤ store.maxRecords ∧
      SupersededAmongOldest EvidenceRecord.superseded (fun r => ts r.createdAt)
        (excess store.maxRecords (store.appended record)) (store.appended record) := by
  rw [RetiresFirst, addEvidence, exists_map_eq_some]
  exact enforceBounds_retires_iff _ hover

theorem DurableStore.retiresFirst_iff (ts : Str → T) (store : DurableStore F)
    (record : DurableRecord F) (hover : store.maxRecords < (store.appended record).length) :
    store.RetiresFirst ts record ↔ 0 ≤ store.maxRecords ∧
      SupersededAmongOldest DurableRecord.superseded (fun r => ts r.createdAt)
        (excess store.maxRecords (store.appended record)) (store.appended record) := by
  rw [RetiresFirst, add, exists_map_eq_some]
  exact enforceBounds_retires_iff _ hover

/-- For both stores, an add that goes over the bound retires superseded records first if and
only if the bound is not negative and the superseded records are among the oldest ones. -/
theorem add_retiresFirst_iff (ts : Str → T) :
    (∀ (store : EvidenceStore F) (record : EvidenceRecord F),
      store.maxRecords < (store.appended record).length →
        (store.RetiresFirst ts record ↔ 0 ≤ store.maxRecords ∧
          SupersededAmongOldest EvidenceRecord.superseded (fun r => ts r.createdAt)
            (excess store.maxRecords (store.appended record)) (store.appended record))) ∧
    ∀ (store : DurableStore F) (record : DurableRecord F),
      store.maxRecords < (store.appended record).length →
        (store.RetiresFirst ts record ↔ 0 ≤ store.maxRecords ∧
          SupersededAmongOldest DurableRecord.superseded (fun r => ts r.createdAt)
            (excess store.maxRecords (store.appended record)) (store.appended record)) :=
  ⟨fun store record hover => store.retiresFirst_iff ts record hover,
    fun store record hover => store.retiresFirst_iff ts record hover⟩

/-! A convention is live since the first day; a decision of the second day was superseded. -/

def agedRecord (memoryId createdAt : Str) (status : DurableStatus) : DurableRecord ℕ where
  memoryId := memoryId
  topic := .keyDecisions
  statement := "Project uses uv".toList
  rationale := []
  evidenceRefs := []
  projectScope := "project".toList
  tags := ["decision".toList]
  createdAt := createdAt
  updatedAt := createdAt
  lastUsedAt := []
  useCount := 0
  confidence := 1
  status := status
  sourceTaskIds := []
  sourceRunIds := []
  sourceEvidenceIds := []
  sourceUserStatement := []
  supersedes := []
  conflictWith := []

def liveFirst : DurableRecord ℕ :=
  agedRecord "mem_1".toList "2026-01-01T00:00:00+00:00".toList .active

def supersededSecond : DurableRecord ℕ :=
  agedRecord "mem_2".toList "2026-01-02T00:00:00+00:00".toList .superseded

def liveThird : DurableRecord ℕ :=
  agedRecord "mem_3".toList "2026-01-03T00:00:00+00:00".toList .active

theorem add_retiresFirst_iff_full :
    DurableStore.RetiresFirst awareMicros ⟨1, [supersededSecond]⟩ liveThird :=
  ((add_retiresFirst_iff awareMicros).2 ⟨1, [supersededSecond]⟩ liveThird (by decide)).mpr
    ⟨by decide, by unfold SupersededAmongOldest; decide⟩

/-- The live record goes, and the superseded one stays. -/
theorem live_record_retired :
    ¬ ∀ (store : DurableStore ℕ) (record : DurableRecord ℕ),
      store.maxRecords < (store.appended record).length → store.RetiresFirst awareMicros record := by
  intro hclaim
  have hretires := hclaim ⟨2, [liveFirst, supersededSecond]⟩ liveThird (by decide)
  rw [DurableStore.retiresFirst_iff awareMicros _ _ (by decide)] at hretires
  exact absurd hretires.2 (by unfold SupersededAmongOldest; decide)

end Memory
end CodeCub

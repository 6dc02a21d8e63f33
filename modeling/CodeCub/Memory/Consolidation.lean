import Mathlib.Algebra.Order.Field.Rat
import Mathlib.Data.Finset.Sort
import Mathlib.Data.List.Lex
import CodeCub.Memory.Extraction

/-!
# Consolidation

`codecub/memory_v2/consolidation.py`: a candidate is compared with the active records of its
topic before it is stored, and may be merged into one of them or count as its duplicate.
-/

namespace CodeCub
namespace Memory

open Python
open Regex (concat opt plus any space literal word)

/-! ## Texts -/

/-- `[A-Za-z0-9_\u4e00-\u9fff]`. -/
def isTokenChar (c : Char) : Bool :=
  ('A' ≤ c && c ≤ 'Z') || ('a' ≤ c && c ≤ 'z') || ('0' ≤ c && c ≤ '9') || c = '_' ||
    ('\u4e00' ≤ c && c ≤ '\u9fff')

/-- The longest runs of token characters. -/
def tokenRuns (text : Str) : List Str :=
  (text.splitOnP fun c => !isTokenChar c).filter (· ≠ [])

namespace Unicode

variable (unicode : Unicode)

/-- `_tokens`. -/
def tokens (text : Str) : Finset Str := (tokenRuns (unicode.lower text)).toFinset

end Unicode

/-- What comes after the subject in each of `SUBJECT_PATTERNS`. -/
def subjectTails : List Regex :=
  let verb (v : Regex) : Regex :=
    concat [plus space, v, .many space, opt (literal ":"), plus space, plus any, .final]
  [verb (word "is"), verb (word "are"), verb (concat [word "use", opt (word "s")]),
    verb (word "should"), concat [literal "是", plus any, .final],
    concat [literal "使用", plus any, .final]]

/-- The shortest `.+?` that has a match of the tail after it; `taken` is too short. -/
def splitBefore (tail : Regex) (taken : Str) : Str → Option Str
  | [] => none
  | c :: rest =>
      if c = '\n' then none
      else if tail.ends ⟨some c, rest⟩ ≠ [] then some (taken ++ [c])
      else splitBefore tail (taken ++ [c]) rest

namespace Unicode

variable (unicode : Unicode)

/-- `" ".join(sorted(_tokens(text)))`, where it is not empty. -/
def subjectOf (text : Str) : Option Str :=
  let subject := List.intercalate [' '] (sortedSet (unicode.tokens text))
  if subject = [] then none else some subject

/-- `_subject_key`. -/
def subjectKey (statement : Str) : Option Str :=
  subjectTails.findSome? fun tail =>
    (splitBefore tail [] (stripList isSpace statement)).bind unicode.subjectOf

/-- `_token_overlap`. -/
def tokenOverlap (a b : Str) : ℚ :=
  let tokensA := unicode.tokens a
  let tokensB := unicode.tokens b
  if tokensA = ∅ ∨ tokensB = ∅ then 0
  else (tokensA ∩ tokensB).card / min tokensA.card tokensB.card

/-- `_NUMBER_TOKEN_PATTERN`. -/
def numberTokenPattern : Regex :=
  concat [plus unicode.digit, opt (concat [literal ".", plus unicode.digit]), .final]

def numbers (tokens : Finset Str) : Finset Str :=
  tokens.filter fun token => unicode.numberTokenPattern.accepts token

/-- `_contradictory`. -/
def contradictory (a b : Str) : Bool :=
  let tokensA := unicode.tokens a
  let tokensB := unicode.tokens b
  unicode.numbers tokensA ≠ unicode.numbers tokensB ∧
    tokensA \ unicode.numbers tokensA = tokensB \ unicode.numbers tokensB

end Unicode

/-! ## The store -/

variable {F T : Type} [LinearOrder T]

namespace DurableStore

/-- `update`: in the place of the record with its id, or added. -/
def update (ts : Str → T) (store : DurableStore F) (record : DurableRecord F) :
    Option (DurableStore F) :=
  match store.records.findIdx? fun existing => existing.memoryId = record.memoryId with
  | some index => some { store with records := store.records.set index record }
  | none => store.add ts record

/-- `set_status` to a valid status. -/
def setStatus (store : DurableStore F) (memoryId : Str) (status : DurableStatus) (now : Str) :
    DurableStore F :=
  match store.records.findIdx? fun existing => existing.memoryId = memoryId with
  | some index =>
      { store with records := store.records.modify index fun existing =>
          { existing with status := status, updatedAt := now } }
  | none => store

end DurableStore

/-- `TOPIC_DEFAULTS[topic][1]`. -/
def Topic.tags : Topic → List String
  | .projectConventions => ["convention"]
  | .keyDecisions => ["decision"]
  | .dependencyFacts => ["dependency"]
  | .userPreferences => ["preference"]
  | .buildAndTest => ["build", "test"]
  | .environmentConstraints => ["environment"]
  | .validatedWorkflows => ["workflow"]
  | .knownPitfalls => ["pitfall"]

/-- `_append_unique`. -/
def appendUnique (items : List Str) (value : Str) : List Str :=
  if value = [] ∨ value ∈ items then items else items ++ [value]

/-! ## Decisions -/

inductive Action
  | new
  | duplicate
  | merge
  | supersede
  | conflict
  | reject
  deriving DecidableEq, Repr

structure ConsolidationOutcome (F : Type) where
  action : Action
  record : Option (DurableRecord F) := none
  existing : Option (DurableRecord F) := none
  reason : String := ""

/-- What a call has from its machine: the id of a new record, and the times that are written
into new and changed records. -/
structure Stamp where
  memoryId : Str
  created : Str
  changed : Str

section Apply

variable [Zero F] [One F] [DecidableEq F] (unicode : Unicode) (ts : Str → T) (stamp : Stamp)
  (sourceTaskId sourceRunId : Str)

/-- `_new_record`. -/
def newRecord (candidate : MemoryCandidate F) : DurableRecord F where
  memoryId := stamp.memoryId
  topic := candidate.topic
  statement := candidate.statement.take statementLimit
  rationale := candidate.reasonToRemember.take 400
  evidenceRefs := candidate.sourceRefs.map SourceRef.text
  projectScope := if candidate.scope = [] then "project".toList else candidate.scope
  tags := candidate.topic.tags.map String.toList
  createdAt := stamp.created
  updatedAt := stamp.created
  lastUsedAt := []
  useCount := 0
  confidence := if candidate.confidence = 0 then 1 else candidate.confidence
  status := .active
  sourceTaskIds := if sourceTaskId = [] then [] else [sourceTaskId]
  sourceRunIds := if sourceRunId = [] then [] else [sourceRunId]
  sourceEvidenceIds := candidate.sourceEvidenceIds
  sourceUserStatement := candidate.sourceUserStatement
  supersedes := []
  conflictWith := []

/-- The active records of the candidate's topic. -/
def comparable (store : DurableStore F) (candidate : MemoryCandidate F) :
    List (DurableRecord F) :=
  store.activeRecords.filter fun record => record.topic = candidate.topic

/-- `candidate_has_verification`. -/
def MemoryCandidate.verified (candidate : MemoryCandidate F) : Bool :=
  candidate.sourceRefs.any fun ref =>
    ref.isDict && "verification".toList.isPrefixOf (ref.kind.getD [])

def SaysSame (candidate : MemoryCandidate F) (record : DurableRecord F) : Prop :=
  unicode.lower (stripList isSpace record.statement) = unicode.lower candidate.stripped

instance decidableSaysSame (candidate : MemoryCandidate F) (record : DurableRecord F) :
    Decidable (SaysSame unicode candidate record) :=
  inferInstanceAs (Decidable (_ = _))

/-- The record has the subject key that the candidate has. -/
def SameSubject (candidate : MemoryCandidate F) (record : DurableRecord F) : Prop :=
  (unicode.subjectKey candidate.stripped).isSome ∧
    unicode.subjectKey record.statement = unicode.subjectKey candidate.stripped

instance decidableSameSubject (candidate : MemoryCandidate F) (record : DurableRecord F) :
    Decidable (SameSubject unicode candidate record) :=
  inferInstanceAs (Decidable (_ ∧ _))

def overlapWith (candidate : MemoryCandidate F) (record : DurableRecord F) : ℚ :=
  unicode.tokenOverlap candidate.stripped record.statement

/-- The first of the elements with the greatest positive score, with its score. -/
def firstBest {A : Type} (score : A → ℚ) (l : List A) : ℚ × Option A :=
  l.foldl (fun best x => if best.1 < score x then (score x, some x) else best) (0, none)

/-- The element has the greatest score of all, a positive one, and those before it have
less. -/
def BestAt {A : Type} (score : A → ℚ) (l : List A) (x : A) : Prop :=
  0 < score x ∧ ∃ i, l[i]? = some x ∧ ∀ (j : ℕ) (y : A), l[j]? = some y →
    score y ≤ score x ∧ (j < i → score y < score x)

/-- `best_overlap` and `best_record`. -/
def closest (store : DurableStore F) (candidate : MemoryCandidate F) :
    ℚ × Option (DurableRecord F) :=
  firstBest (overlapWith unicode candidate) (comparable store candidate)

/-- `contradictory`. -/
def contradicted (store : DurableStore F) (candidate : MemoryCandidate F) : Bool :=
  let best := closest unicode store candidate
  best.2.any fun record =>
    3 / 5 ≤ best.1 ∧ unicode.contradictory record.statement candidate.stripped

def conflictCandidate (store : DurableStore F) (candidate : MemoryCandidate F) :
    Option (DurableRecord F) :=
  match (comparable store candidate).filter fun record => SameSubject unicode candidate record with
  | record :: _ => some record
  | [] => if contradicted unicode store candidate then (closest unicode store candidate).2 else none

/-- A duplicate in the same words. -/
def touch (candidate : MemoryCandidate F) (record : DurableRecord F) : DurableRecord F :=
  { record with
    updatedAt := stamp.changed
    sourceTaskIds := appendUnique record.sourceTaskIds sourceTaskId
    sourceRunIds := appendUnique record.sourceRunIds sourceRunId
    sourceUserStatement :=
      if candidate.sourceRefs.any (fun ref =>
          ref.isDict && ref.kind = some "user_final_answer_line".toList) ∧
          record.sourceUserStatement = [] then candidate.sourceUserStatement
      else record.sourceUserStatement }

/-- The record with the statement of the candidate. -/
def merged (candidate : MemoryCandidate F) (record : DurableRecord F) : DurableRecord F :=
  { record with
    statement := candidate.stripped
    updatedAt := stamp.changed
    sourceTaskIds := appendUnique record.sourceTaskIds sourceTaskId
    sourceRunIds := appendUnique record.sourceRunIds sourceRunId }

def supersede (store : DurableStore F) (candidate : MemoryCandidate F)
    (existing : DurableRecord F) : Option (DurableStore F × ConsolidationOutcome F) :=
  let record := { newRecord stamp sourceTaskId sourceRunId candidate with
    supersedes := existing.memoryId }
  ((store.setStatus existing.memoryId .superseded stamp.changed).add ts record).map fun store =>
    (store, { action := .supersede, record := some record,
              existing := some { existing with
                status := .superseded, updatedAt := stamp.changed } })

def conflict (store : DurableStore F) (candidate : MemoryCandidate F)
    (existing : DurableRecord F) : Option (DurableStore F × ConsolidationOutcome F) :=
  let record := { newRecord stamp sourceTaskId sourceRunId candidate with
    conflictWith := existing.memoryId }
  let marked := { existing with
    conflictWith := if existing.conflictWith = [] then record.memoryId else existing.conflictWith }
  ((store.add ts record).bind fun store => store.update ts marked).map fun store =>
    (store, { action := .conflict, record := some record, existing := some marked })

/-- The merge of overlapping statements, or a new record. -/
def mergeOrAdd (store : DurableStore F) (candidate : MemoryCandidate F) :
    Option (DurableStore F × ConsolidationOutcome F) :=
  let best := closest unicode store candidate
  match best.2.filter fun _ => 3 / 5 ≤ best.1 ∧ ¬ contradicted unicode store candidate with
  | some record =>
      if unicode.tokens record.statement ⊆ unicode.tokens candidate.stripped then
        let updated := merged stamp sourceTaskId sourceRunId candidate record
        (store.update ts updated).map fun store =>
          (store, { action := .merge, record := some updated, existing := some updated })
      else
        let updated := { record with updatedAt := stamp.changed }
        (store.update ts updated).map fun store =>
          (store, { action := .duplicate, record := some updated, existing := some updated })
  | none =>
      let record := newRecord stamp sourceTaskId sourceRunId candidate
      (store.add ts record).map fun store => (store, { action := .new, record := some record })

/-- `MemoryConsolidator.apply`; `none` when popping from the store raises.  `from_dict` of a
record of a store is the record itself. -/
def apply (store : DurableStore F) (candidate : MemoryCandidate F) :
    Option (DurableStore F × ConsolidationOutcome F) :=
  if candidate.rejection unicode ≠ "" then
    some (store, { action := .reject, reason := candidate.rejection unicode })
  else
    match (comparable store candidate).find? fun record => SaysSame unicode candidate record with
    | some record =>
        let updated := touch stamp sourceTaskId sourceRunId candidate record
        (store.update ts updated).map fun store =>
          (store, { action := .duplicate, record := some updated, existing := some updated })
    | none =>
        match conflictCandidate unicode store candidate with
        | some existing =>
            if candidate.verified then
              supersede ts stamp sourceTaskId sourceRunId store candidate existing
            else if contradicted unicode store candidate then
              conflict ts stamp sourceTaskId sourceRunId store candidate existing
            else mergeOrAdd unicode ts stamp sourceTaskId sourceRunId store candidate
        | none => mergeOrAdd unicode ts stamp sourceTaskId sourceRunId store candidate

/-! ## What is asked of it -/

/-- No token of a duplicate is lost, and another statement about the same subject does not
count as a duplicate or as something new. -/
structure KeepsNew (store : DurableStore F) (candidate : MemoryCandidate F) : Prop where
  informed : ∀ after outcome,
    apply unicode ts stamp sourceTaskId sourceRunId store candidate = some (after, outcome) →
      outcome.action = .duplicate → ∃ record, outcome.record = some record ∧
        unicode.tokens candidate.statement ⊆ unicode.tokens record.statement
  decided : (∃ record ∈ comparable store candidate, SameSubject unicode candidate record) →
    (∀ record ∈ comparable store candidate, ¬ SaysSame unicode candidate record) →
      ∀ after outcome,
        apply unicode ts stamp sourceTaskId sourceRunId store candidate = some (after, outcome) →
          outcome.action = .conflict ∨ outcome.action = .supersede ∨ outcome.action = .merge

/-- The first record of those that overlap most with the candidate. -/
def Closest (store : DurableStore F) (candidate : MemoryCandidate F) (record : DurableRecord F) :
    Prop :=
  BestAt (overlapWith unicode candidate) (comparable store candidate) record

/-- The closest record, when it overlaps enough to be merged with. -/
def Near (store : DurableStore F) (candidate : MemoryCandidate F) (record : DurableRecord F) :
    Prop :=
  Closest unicode store candidate record ∧ 3 / 5 ≤ overlapWith unicode candidate record

/-- The candidate is decided by its words, its verification or its numbers, or the closest
record has all of its tokens, or the other way round and no record has its subject. -/
def NothingLost (store : DurableStore F) (candidate : MemoryCandidate F) : Prop :=
  (∃ record ∈ comparable store candidate, SaysSame unicode candidate record) ∨
    (candidate.verified ∧
      ∃ record ∈ comparable store candidate, SameSubject unicode candidate record) ∨
    (∃ record, Near unicode store candidate record ∧
      (unicode.contradictory record.statement candidate.stripped ∨
        unicode.tokens record.statement ⊆ unicode.tokens candidate.statement)) ∨
    ((∀ record ∈ comparable store candidate, ¬ SameSubject unicode candidate record) ∧
      ∀ record, Near unicode store candidate record →
        unicode.tokens candidate.statement ⊆ unicode.tokens record.statement) ∨
    (store.maxRecords < 0 ∧ ∀ record, ¬ Near unicode store candidate record)

end Apply

/-! ## Tokens -/

theorem isTokenChar_of_isSpace {c : Char} (h : isSpace c = true) : isTokenChar c = false := by
  have hcode : c.toNat ≤ 0x20 ∨ 0x85 ≤ c.toNat ∧ c.toNat ≤ 0x3000 := by
    simp only [isSpace, Bool.or_eq_true, Bool.and_eq_true, decide_eq_true_eq, beq_iff_eq] at h
    omega
  have hcodes {d e : Char} (hle : d ≤ e) : d.toNat ≤ e.toNat := UInt32.le_iff_toNat_le.mp hle
  rw [Bool.eq_false_iff]
  intro htoken
  simp only [isTokenChar, Bool.or_eq_true, Bool.and_eq_true, decide_eq_true_eq] at htoken
  obtain (((hupper | hlower) | hdigit) | hunder) | hcjk := htoken
  · have hlow : 65 ≤ c.toNat := hcodes hupper.1
    have hhigh : c.toNat ≤ 90 := hcodes hupper.2
    omega
  · have hlow : 97 ≤ c.toNat := hcodes hlower.1
    have hhigh : c.toNat ≤ 122 := hcodes hlower.2
    omega
  · have hlow : 48 ≤ c.toNat := hcodes hdigit.1
    have hhigh : c.toNat ≤ 57 := hcodes hdigit.2
    omega
  · have hcodeUnder : c.toNat = 95 := congrArg Char.toNat hunder
    omega
  · have hlow : 19968 ≤ c.toNat := hcodes hcjk.1
    omega

theorem tokenRuns_append (text rest : Str) {c : Char} (hc : isTokenChar c = false) :
    tokenRuns (text ++ c :: rest) = tokenRuns text ++ tokenRuns rest := by
  have hsep : (!isTokenChar c) = true := by rw [hc, Bool.not_false]
  have hsplit := @List.splitOnP_append_cons Char (fun c => !isTokenChar c) text rest c hsep
  rw [tokenRuns, hsplit, List.filter_append]
  rfl

theorem tokenRuns_dropWhile (text : Str) : tokenRuns (text.dropWhile isSpace) = tokenRuns text := by
  induction text with
  | nil => rfl
  | cons c text ih =>
      by_cases hc : isSpace c = true
      · have happend := tokenRuns_append [] text (isTokenChar_of_isSpace hc)
        rw [List.dropWhile_cons_of_pos hc, ih]
        exact happend.symm
      · rw [List.dropWhile_cons_of_neg hc]

theorem tokenRuns_rdropWhile (text : Str) :
    tokenRuns (text.rdropWhile isSpace) = tokenRuns text := by
  induction text using List.reverseRecOn with
  | nil => rfl
  | append_singleton text c ih =>
      by_cases hc : isSpace c = true
      · rw [List.rdropWhile_concat_pos _ _ _ hc, ih,
          tokenRuns_append text [] (isTokenChar_of_isSpace hc)]
        exact (List.append_nil _).symm
      · rw [List.rdropWhile_concat_neg _ _ _ hc]

theorem tokens_strip (unicode : Unicode) (text : Str) :
    unicode.tokens (stripList isSpace text) = unicode.tokens text := by
  rw [Unicode.tokens, ← unicode.strip_lower, stripList, tokenRuns_rdropWhile, tokenRuns_dropWhile,
    Unicode.tokens]

/-! ## The closest record -/

section

variable {A : Type} {score : A → ℚ} {l : List A}

theorem BestAt.unique {x y : A} (hx : BestAt score l x) (hy : BestAt score l y) : x = y := by
  obtain ⟨-, i, hi, hxBest⟩ := hx
  obtain ⟨-, j, hj, hyBest⟩ := hy
  obtain hlt | heq | hgt := Nat.lt_trichotomy i j
  · have hless := (hyBest i x hi).2 hlt
    have hmost := (hxBest j y hj).1
    exact absurd hless (not_lt.mpr hmost)
  · rw [heq] at hi
    exact Option.some.inj (hi.symm.trans hj)
  · have hless := (hxBest j y hj).2 hgt
    have hmost := (hyBest i x hi).1
    exact absurd hless (not_lt.mpr hmost)

theorem getElem?_concat_cases {j : ℕ} {x y : A} (h : (l ++ [x])[j]? = some y) :
    l[j]? = some y ∨ j = l.length ∧ y = x := by
  rw [List.getElem?_append] at h
  split at h
  · exact Or.inl h
  · rw [List.getElem?_singleton] at h
    split at h
    · exact Or.inr ⟨by omega, (Option.some.inj h).symm⟩
    · cases h

/-- The fold keeps the best element so far, if one has a positive score. -/
theorem firstBest_spec (score : A → ℚ) (l : List A) :
    (firstBest score l = (0, none) ∧ ∀ x ∈ l, score x ≤ 0) ∨
      ∃ x, firstBest score l = (score x, some x) ∧ BestAt score l x := by
  induction l using List.reverseRecOn with
  | nil => exact Or.inl ⟨rfl, fun x hx => nomatch hx⟩
  | append_singleton l x ih =>
      rw [firstBest, List.foldl_append, ← firstBest, List.foldl_cons, List.foldl_nil]
      obtain ⟨hnone, hnonpos⟩ | ⟨best, hbest, hpos, i, hi, hmost⟩ := ih
      · rw [hnone]
        by_cases hx : 0 < score x
        · rw [if_pos hx]
          refine Or.inr ⟨x, rfl, hx, l.length, List.getElem?_concat_length, ?_⟩
          intro j y hy
          obtain hy | ⟨rfl, rfl⟩ := getElem?_concat_cases hy
          · have hle := hnonpos y (List.mem_of_getElem? hy)
            exact ⟨hle.trans hx.le, fun _ => lt_of_le_of_lt hle hx⟩
          · exact ⟨le_refl _, fun hlt => absurd hlt (Nat.lt_irrefl _)⟩
        · rw [if_neg hx]
          refine Or.inl ⟨rfl, fun y hy => ?_⟩
          obtain hy | hy := List.mem_append.mp hy
          · exact hnonpos y hy
          · rw [List.mem_singleton.mp hy]
            exact not_lt.mp hx
      · have hlt := (List.getElem?_eq_some_iff.mp hi).1
        rw [hbest]
        by_cases hx : score best < score x
        · rw [if_pos hx]
          refine Or.inr ⟨x, rfl, hpos.trans hx, l.length, List.getElem?_concat_length, ?_⟩
          intro j y hy
          obtain hy | ⟨rfl, rfl⟩ := getElem?_concat_cases hy
          · have hle := (hmost j y hy).1
            exact ⟨hle.trans hx.le, fun _ => lt_of_le_of_lt hle hx⟩
          · exact ⟨le_refl _, fun hlt => absurd hlt (Nat.lt_irrefl _)⟩
        · rw [if_neg hx]
          refine Or.inr ⟨best, rfl, hpos, i, (List.getElem?_append_left hlt).trans hi, ?_⟩
          intro j y hy
          obtain hy | ⟨rfl, rfl⟩ := getElem?_concat_cases hy
          · exact hmost j y hy
          · exact ⟨not_lt.mp hx, fun hbefore => absurd hbefore (by omega)⟩

end

/-! ## The store takes what it is given -/

theorem DurableStore.exists_update (ts : Str → T) {store : DurableStore F}
    {record updated : DurableRecord F} (hrecord : record ∈ store.records)
    (hid : updated.memoryId = record.memoryId) : ∃ after, store.update ts updated = some after := by
  rw [update]
  cases hfind : store.records.findIdx? fun existing => existing.memoryId = updated.memoryId with
  | some index => exact ⟨_, rfl⟩
  | none =>
      rw [List.findIdx?_eq_none_iff] at hfind
      have hmissing := hfind record hrecord
      rw [hid, decide_eq_false_iff_not] at hmissing
      exact absurd rfl hmissing

theorem DurableStore.add_of_neg (ts : Str → T) {store : DurableStore F}
    (hneg : store.maxRecords < 0) (record : DurableRecord F) : store.add ts record = none := by
  rw [add, enforceBounds_of_neg hneg, Option.map_none]

theorem DurableStore.exists_add (ts : Str → T) {store : DurableStore F}
    (hmax : 0 ≤ store.maxRecords) (record : DurableRecord F) :
    ∃ after, store.add ts record = some after := by
  by_cases hover : store.maxRecords < (store.appended record).length
  · rw [add, enforceBounds_of_nonneg hmax hover]
    exact ⟨_, rfl⟩
  · rw [add, enforceBounds, if_pos (not_lt.mp hover)]
    exact ⟨_, rfl⟩

theorem mem_records_of_comparable {store : DurableStore F} {candidate : MemoryCandidate F}
    {record : DurableRecord F} (h : record ∈ comparable store candidate) :
    record ∈ store.records :=
  List.mem_of_mem_filter (List.mem_of_mem_filter h)

/-! ## Decisions -/

section Decisions

variable {unicode : Unicode} {store : DurableStore F} {candidate : MemoryCandidate F}

theorem closest_cases :
    (closest unicode store candidate = (0, none) ∧
        ∀ record, ¬ Closest unicode store candidate record) ∨
      ∃ record, closest unicode store candidate = (overlapWith unicode candidate record, some record) ∧
        Closest unicode store candidate record := by
  obtain ⟨hnone, hnonpos⟩ | hsome :=
    firstBest_spec (overlapWith unicode candidate) (comparable store candidate)
  · refine Or.inl ⟨hnone, fun record hclosest => ?_⟩
    obtain ⟨hpos, i, hi, -⟩ := hclosest
    exact absurd hpos (not_lt.mpr (hnonpos record (List.mem_of_getElem? hi)))
  · exact Or.inr hsome

theorem closest_eq {record : DurableRecord F} (h : Closest unicode store candidate record) :
    closest unicode store candidate = (overlapWith unicode candidate record, some record) := by
  obtain ⟨-, hnone⟩ | ⟨other, hother, hclosest⟩ := @closest_cases F unicode store candidate
  · exact absurd h (hnone record)
  · rw [BestAt.unique h hclosest]
    exact hother

theorem mem_comparable_of_closest {record : DurableRecord F}
    (h : Closest unicode store candidate record) : record ∈ comparable store candidate := by
  obtain ⟨-, i, hi, -⟩ := h
  exact List.mem_of_getElem? hi

theorem contradicted_iff :
    contradicted unicode store candidate = true ↔ ∃ record, Near unicode store candidate record ∧
      unicode.contradictory record.statement candidate.stripped = true := by
  obtain ⟨hnone, hfar⟩ | ⟨record, hclosest, hrecord⟩ := @closest_cases F unicode store candidate
  · rw [contradicted, hnone]
    constructor
    · intro h
      cases h
    · intro h
      obtain ⟨record, hnear, -⟩ := h
      exact absurd hnear.1 (hfar record)
  · rw [contradicted, hclosest, Option.any_some, decide_eq_true_eq]
    constructor
    · intro h
      exact ⟨record, ⟨hrecord, h.1⟩, h.2⟩
    · intro h
      obtain ⟨other, hnear, hcontra⟩ := h
      rw [BestAt.unique hrecord hnear.1]
      exact ⟨hnear.2, hcontra⟩

theorem conflictCandidate_isSome :
    (conflictCandidate unicode store candidate).isSome = true ↔
      (∃ record ∈ comparable store candidate, SameSubject unicode candidate record) ∨
        contradicted unicode store candidate = true := by
  rw [conflictCandidate]
  split
  · next record rest hsame =>
      have hmem : record ∈ (comparable store candidate).filter fun record =>
          SameSubject unicode candidate record := by
        rw [hsame]
        exact List.mem_cons_self
      rw [List.mem_filter, decide_eq_true_eq] at hmem
      simp only [Option.isSome_some, true_iff]
      exact Or.inl ⟨record, hmem⟩
  · next hnone =>
      have hno : ¬ ∃ record ∈ comparable store candidate, SameSubject unicode candidate record := by
        intro h
        obtain ⟨record, hrecord, hsubject⟩ := h
        have hempty := List.filter_eq_nil_iff.mp hnone record hrecord
        exact hempty (decide_eq_true hsubject)
      by_cases hcontra : contradicted unicode store candidate = true
      · obtain ⟨record, hnear, -⟩ := contradicted_iff.mp hcontra
        rw [if_pos hcontra, closest_eq hnear.1]
        simp [hcontra]
      · rw [if_neg hcontra]
        simp [hno, hcontra]

/-- The condition on what is close, once nothing else has decided. -/
theorem nothingLost_of_undecided
    (hnew : ∀ record ∈ comparable store candidate, ¬ SaysSame unicode candidate record)
    (hverified : ¬ (candidate.verified = true ∧
      ∃ record ∈ comparable store candidate, SameSubject unicode candidate record))
    (hcontra : ¬ contradicted unicode store candidate = true) :
    NothingLost unicode store candidate ↔
      (∃ record, Near unicode store candidate record ∧
        unicode.tokens record.statement ⊆ unicode.tokens candidate.statement) ∨
      ((∀ record ∈ comparable store candidate, ¬ SameSubject unicode candidate record) ∧
        ∀ record, Near unicode store candidate record →
          unicode.tokens candidate.statement ⊆ unicode.tokens record.statement) ∨
      (store.maxRecords < 0 ∧ ∀ record, ¬ Near unicode store candidate record) := by
  rw [NothingLost]
  constructor
  · intro h
    obtain ⟨record, hrecord, hsame⟩ | hdecided | ⟨record, hnear, hnumbers | hcovers⟩ | hrest := h
    · exact absurd hsame (hnew record hrecord)
    · exact absurd hdecided hverified
    · exact absurd (contradicted_iff.mpr ⟨record, hnear, hnumbers⟩) hcontra
    · exact Or.inl ⟨record, hnear, hcovers⟩
    · exact Or.inr hrest
  · intro h
    obtain ⟨record, hnear, hcovers⟩ | hrest := h
    · exact Or.inr (Or.inr (Or.inl ⟨record, hnear, Or.inr hcovers⟩))
    · exact Or.inr (Or.inr (Or.inr hrest))

variable [Zero F] [One F] [DecidableEq F] {ts : Str → T} {stamp : Stamp}
  {sourceTaskId sourceRunId : Str}

/-- What the same words decide. -/
theorem apply_same (haccepted : candidate.rejection unicode = "")
    (h : ∃ record ∈ comparable store candidate, SaysSame unicode candidate record) :
    ∃ after record, record ∈ comparable store candidate ∧ SaysSame unicode candidate record ∧
      apply unicode ts stamp sourceTaskId sourceRunId store candidate = some (after,
        { action := .duplicate,
          record := some (touch stamp sourceTaskId sourceRunId candidate record),
          existing := some (touch stamp sourceTaskId sourceRunId candidate record) }) := by
  obtain ⟨found, hfound, hsame⟩ := h
  rw [apply, if_neg (not_not.mpr haccepted)]
  split
  · next record hfind =>
      have hmem := List.mem_of_find?_eq_some hfind
      have hsays := List.find?_some hfind
      obtain ⟨after, hafter⟩ := DurableStore.exists_update ts (mem_records_of_comparable hmem)
        (show (touch stamp sourceTaskId sourceRunId candidate record).memoryId = record.memoryId
          from rfl)
      dsimp only
      rw [hafter]
      exact ⟨after, record, hmem, of_decide_eq_true hsays, rfl⟩
  · next hnone =>
      rw [List.find?_eq_none] at hnone
      exact absurd (decide_eq_true hsame) (hnone found hfound)

/-- What a verification or a contradiction decides. -/
theorem apply_decided (haccepted : candidate.rejection unicode = "")
    (hnew : ∀ record ∈ comparable store candidate, ¬ SaysSame unicode candidate record)
    (h : (candidate.verified = true ∧
        ∃ record ∈ comparable store candidate, SameSubject unicode candidate record) ∨
      contradicted unicode store candidate = true)
    {after : DurableStore F} {outcome : ConsolidationOutcome F}
    (happly : apply unicode ts stamp sourceTaskId sourceRunId store candidate =
      some (after, outcome)) :
    outcome.action = .supersede ∨ outcome.action = .conflict := by
  have hnone : (comparable store candidate).find? (fun record =>
      SaysSame unicode candidate record) = none :=
    List.find?_eq_none.mpr fun record hrecord => by simpa using hnew record hrecord
  have hsome : (conflictCandidate unicode store candidate).isSome = true :=
    conflictCandidate_isSome.mpr (h.imp And.right id)
  obtain ⟨existing, hexisting⟩ := Option.isSome_iff_exists.mp hsome
  rw [apply, if_neg (not_not.mpr haccepted), hnone, hexisting] at happly
  dsimp only at happly
  by_cases hverified : candidate.verified = true
  · rw [if_pos hverified, supersede, Option.map_eq_some_iff] at happly
    obtain ⟨stored, -, hpair⟩ := happly
    rw [← (Prod.mk.inj hpair).2]
    exact Or.inl rfl
  · have hcontra := h.resolve_left fun hboth => hverified hboth.1
    rw [if_neg hverified, if_pos hcontra, conflict, Option.map_eq_some_iff] at happly
    obtain ⟨stored, -, hpair⟩ := happly
    rw [← (Prod.mk.inj hpair).2]
    exact Or.inr rfl

theorem apply_undecided (haccepted : candidate.rejection unicode = "")
    (hnew : ∀ record ∈ comparable store candidate, ¬ SaysSame unicode candidate record)
    (hverified : ¬ (candidate.verified = true ∧
      ∃ record ∈ comparable store candidate, SameSubject unicode candidate record))
    (hcontra : ¬ contradicted unicode store candidate = true) :
    apply unicode ts stamp sourceTaskId sourceRunId store candidate =
      mergeOrAdd unicode ts stamp sourceTaskId sourceRunId store candidate := by
  have hnone : (comparable store candidate).find? (fun record =>
      SaysSame unicode candidate record) = none :=
    List.find?_eq_none.mpr fun record hrecord => by simpa using hnew record hrecord
  rw [apply, if_neg (not_not.mpr haccepted), hnone]
  dsimp only
  split
  · next existing hexisting =>
      have hsubject := conflictCandidate_isSome.mp (Option.isSome_iff_exists.mpr ⟨_, hexisting⟩)
      have hsame := hsubject.resolve_right hcontra
      rw [if_neg fun hyes => hverified ⟨hyes, hsame⟩, if_neg hcontra]
  · rfl

theorem mergeOrAdd_near (hcontra : ¬ contradicted unicode store candidate = true)
    {record : DurableRecord F} (hnear : Near unicode store candidate record) :
    ∃ after, mergeOrAdd unicode ts stamp sourceTaskId sourceRunId store candidate =
      some (after,
        if unicode.tokens record.statement ⊆ unicode.tokens candidate.stripped then
          { action := .merge,
            record := some (merged stamp sourceTaskId sourceRunId candidate record),
            existing := some (merged stamp sourceTaskId sourceRunId candidate record) }
        else
          { action := .duplicate, record := some { record with updatedAt := stamp.changed },
            existing := some { record with updatedAt := stamp.changed } }) := by
  have hrecord := mem_records_of_comparable (mem_comparable_of_closest hnear.1)
  have hfilter : (some record).filter (fun _ =>
      3 / 5 ≤ overlapWith unicode candidate record ∧ ¬ contradicted unicode store candidate) =
      some record := by
    rw [Option.filter_some, if_pos (decide_eq_true ⟨hnear.2, hcontra⟩)]
  rw [mergeOrAdd, closest_eq hnear.1]
  dsimp only
  rw [hfilter]
  dsimp only
  by_cases hcovers : unicode.tokens record.statement ⊆ unicode.tokens candidate.stripped
  · obtain ⟨after, hafter⟩ := DurableStore.exists_update ts hrecord
      (show (merged stamp sourceTaskId sourceRunId candidate record).memoryId = record.memoryId
        from rfl)
    rw [if_pos hcovers, if_pos hcovers, hafter]
    exact ⟨after, rfl⟩
  · obtain ⟨after, hafter⟩ := DurableStore.exists_update ts hrecord
      (show ({ record with updatedAt := stamp.changed } : DurableRecord F).memoryId =
        record.memoryId from rfl)
    rw [if_neg hcovers, if_neg hcovers, hafter]
    exact ⟨after, rfl⟩

theorem mergeOrAdd_far (hfar : ∀ record, ¬ Near unicode store candidate record) :
    mergeOrAdd unicode ts stamp sourceTaskId sourceRunId store candidate =
      (store.add ts (newRecord stamp sourceTaskId sourceRunId candidate)).map fun store =>
        (store, { action := .new,
                  record := some (newRecord stamp sourceTaskId sourceRunId candidate) }) := by
  rw [mergeOrAdd]
  obtain ⟨hnone, -⟩ | ⟨record, hclosest, hrecord⟩ := @closest_cases F unicode store candidate
  · rw [hnone]
    rfl
  · have hlow : ¬ 3 / 5 ≤ overlapWith unicode candidate record :=
      fun hle => hfar record ⟨hrecord, hle⟩
    rw [hclosest]
    simp only [Option.filter_some, hlow, false_and, decide_false, Bool.false_eq_true, if_false]

/-- A candidate that has a close record is merged with it, or counts as its duplicate. -/
theorem keepsNew_near_iff (haccepted : candidate.rejection unicode = "")
    (hnew : ∀ record ∈ comparable store candidate, ¬ SaysSame unicode candidate record)
    (hverified : ¬ (candidate.verified = true ∧
      ∃ record ∈ comparable store candidate, SameSubject unicode candidate record))
    (hcontra : ¬ contradicted unicode store candidate = true) {record : DurableRecord F}
    (hnear : Near unicode store candidate record) :
    KeepsNew unicode ts stamp sourceTaskId sourceRunId store candidate ↔
      unicode.tokens record.statement ⊆ unicode.tokens candidate.statement ∨
        (∀ other ∈ comparable store candidate, ¬ SameSubject unicode candidate other) ∧
          unicode.tokens candidate.statement ⊆ unicode.tokens record.statement := by
  have hstripped : unicode.tokens candidate.stripped = unicode.tokens candidate.statement :=
    tokens_strip unicode candidate.statement
  obtain ⟨after, hafter⟩ := @mergeOrAdd_near F T _ unicode store candidate _ _ _ ts stamp
    sourceTaskId sourceRunId hcontra record hnear
  rw [← apply_undecided haccepted hnew hverified hcontra, hstripped] at hafter
  by_cases hcovers : unicode.tokens record.statement ⊆ unicode.tokens candidate.statement
  · rw [if_pos hcovers] at hafter
    refine iff_of_true ?_ (Or.inl hcovers)
    constructor
    · intro found outcome houtcome hduplicate
      obtain ⟨-, rfl⟩ := Prod.mk.inj (Option.some.inj (hafter.symm.trans houtcome))
      cases hduplicate
    · intro hsame hother found outcome houtcome
      obtain ⟨-, rfl⟩ := Prod.mk.inj (Option.some.inj (hafter.symm.trans houtcome))
      exact Or.inr (Or.inr rfl)
  · rw [if_neg hcovers] at hafter
    constructor
    · intro h
      refine Or.inr ⟨?_, ?_⟩
      · intro other hother hsubject
        obtain haction | haction | haction := h.decided ⟨other, hother, hsubject⟩ hnew _ _ hafter
        · cases haction
        · cases haction
        · cases haction
      · obtain ⟨reported, hreported, hkept⟩ := h.informed _ _ hafter rfl
        obtain rfl := Option.some.inj hreported
        exact hkept
    · intro h
      obtain hyes | ⟨hsubject, hkept⟩ := h
      · exact absurd hyes hcovers
      · constructor
        · intro found outcome houtcome hduplicate
          obtain ⟨-, rfl⟩ := Prod.mk.inj (Option.some.inj (hafter.symm.trans houtcome))
          exact ⟨_, rfl, hkept⟩
        · intro hsame
          obtain ⟨other, hother, hyes⟩ := hsame
          exact absurd hyes (hsubject other hother)

/-- A candidate without a close record is new. -/
theorem keepsNew_far_iff (haccepted : candidate.rejection unicode = "")
    (hnew : ∀ record ∈ comparable store candidate, ¬ SaysSame unicode candidate record)
    (hverified : ¬ (candidate.verified = true ∧
      ∃ record ∈ comparable store candidate, SameSubject unicode candidate record))
    (hfar : ∀ record, ¬ Near unicode store candidate record) :
    KeepsNew unicode ts stamp sourceTaskId sourceRunId store candidate ↔
      (∀ record ∈ comparable store candidate, ¬ SameSubject unicode candidate record) ∨
        store.maxRecords < 0 := by
  have hcontra : ¬ contradicted unicode store candidate = true := by
    intro h
    obtain ⟨record, hnear, -⟩ := contradicted_iff.mp h
    exact hfar record hnear
  have happly := @apply_undecided F T _ unicode store candidate _ _ _ ts stamp sourceTaskId
    sourceRunId haccepted hnew hverified hcontra
  rw [mergeOrAdd_far hfar] at happly
  constructor
  · intro h
    by_cases hneg : store.maxRecords < 0
    · exact Or.inr hneg
    · obtain ⟨after, hafter⟩ := DurableStore.exists_add ts (not_lt.mp hneg)
        (newRecord stamp sourceTaskId sourceRunId candidate)
      rw [hafter, Option.map_some] at happly
      refine Or.inl fun record hrecord hsubject => ?_
      obtain haction | haction | haction := h.decided ⟨record, hrecord, hsubject⟩ hnew _ _ happly
      · cases haction
      · cases haction
      · cases haction
  · intro h
    constructor
    · intro after outcome houtcome hduplicate
      rw [happly, Option.map_eq_some_iff] at houtcome
      obtain ⟨stored, -, hpair⟩ := houtcome
      obtain ⟨-, rfl⟩ := Prod.mk.inj hpair
      cases hduplicate
    · intro hsame hother after outcome houtcome
      obtain hsubject | hneg := h
      · obtain ⟨record, hrecord, hyes⟩ := hsame
        exact absurd hyes (hsubject record hrecord)
      · rw [happly, DurableStore.add_of_neg ts hneg] at houtcome
        cases houtcome

/-- Consolidation keeps what is new exactly when the condition holds. -/
theorem apply_keepsNew_iff (unicode : Unicode) (ts : Str → T) (stamp : Stamp)
    (sourceTaskId sourceRunId : Str) (store : DurableStore F) (candidate : MemoryCandidate F)
    (haccepted : candidate.rejection unicode = "") :
    KeepsNew unicode ts stamp sourceTaskId sourceRunId store candidate ↔
      NothingLost unicode store candidate := by
  by_cases hsame : ∃ record ∈ comparable store candidate, SaysSame unicode candidate record
  · obtain ⟨after, record, hrecord, hsays, hafter⟩ := @apply_same F T _ unicode store candidate
      _ _ _ ts stamp sourceTaskId sourceRunId haccepted hsame
    refine iff_of_true ?_ (Or.inl hsame)
    constructor
    · intro found outcome houtcome hduplicate
      obtain ⟨-, rfl⟩ := Prod.mk.inj (Option.some.inj (hafter.symm.trans houtcome))
      refine ⟨_, rfl, ?_⟩
      have htokens : unicode.tokens (stripList isSpace record.statement) =
          unicode.tokens candidate.stripped := congrArg (fun text => (tokenRuns text).toFinset) hsays
      rw [tokens_strip, MemoryCandidate.stripped, tokens_strip] at htokens
      exact htokens.ge
    · intro hsubject hnew
      obtain ⟨other, hother, hyes⟩ := hsame
      exact absurd hyes (hnew other hother)
  · have hnew : ∀ record ∈ comparable store candidate, ¬ SaysSame unicode candidate record :=
      fun record hrecord hsays => hsame ⟨record, hrecord, hsays⟩
    by_cases hdecided : (candidate.verified = true ∧
        ∃ record ∈ comparable store candidate, SameSubject unicode candidate record) ∨
        contradicted unicode store candidate = true
    · refine iff_of_true ?_ ?_
      · constructor
        · intro after outcome houtcome hduplicate
          obtain haction | haction := apply_decided haccepted hnew hdecided houtcome
          · rw [haction] at hduplicate
            cases hduplicate
          · rw [haction] at hduplicate
            cases hduplicate
        · intro hsubject hother after outcome houtcome
          obtain haction | haction := apply_decided haccepted hnew hdecided houtcome
          · exact Or.inr (Or.inl haction)
          · exact Or.inl haction
      · obtain hverified | hcontra := hdecided
        · exact Or.inr (Or.inl hverified)
        · obtain ⟨record, hnear, hnumbers⟩ := contradicted_iff.mp hcontra
          exact Or.inr (Or.inr (Or.inl ⟨record, hnear, Or.inl hnumbers⟩))
    · obtain ⟨hverified, hcontra⟩ := not_or.mp hdecided
      rw [nothingLost_of_undecided hnew hverified hcontra]
      by_cases hnear : ∃ record, Near unicode store candidate record
      · obtain ⟨record, hnear⟩ := hnear
        have honly : ∀ other, Near unicode store candidate other ↔ other = record := by
          intro other
          constructor
          · exact fun h => BestAt.unique h.1 hnear.1
          · rintro rfl
            exact hnear
        rw [keepsNew_near_iff haccepted hnew hverified hcontra hnear]
        simp only [honly, exists_eq_left, forall_eq, and_false, or_false]
      · have hfar : ∀ record, ¬ Near unicode store candidate record :=
          fun record h => hnear ⟨record, h⟩
        rw [keepsNew_far_iff haccepted hnew hverified hfar]
        simp only [hfar, false_and, exists_false, false_or, false_implies, implies_true, and_true,
          not_false_eq_true]

end Decisions

/-! The store knows that the project uses uv. -/

def decision (statement : String) : MemoryCandidate ℕ where
  candidateType := "decision".toList
  statement := statement.toList
  scope := "project".toList
  sourceRefs := [{ isDict := true, kind := some "user_final_answer_line".toList, text := [] }]
  confidence := 1
  reasonToRemember := []
  freshnessDependency := []
  sourceUserStatement := []
  sourceEvidenceIds := []

def uvStore : DurableStore ℕ := ⟨400, [liveFirst]⟩

def newYearStamp : Stamp where
  memoryId := "mem_4".toList
  created := "2026-01-04T00:00:00+00:00".toList
  changed := "2026-01-04T00:00:00+00:00".toList

theorem apply_keepsNew_iff_sameWords :
    KeepsNew asciiTables awareMicros newYearStamp [] [] uvStore (decision " project uses UV ") :=
  (apply_keepsNew_iff asciiTables awareMicros newYearStamp [] [] uvStore
    (decision " project uses UV ") (by decide +kernel)).mpr
    (Or.inl ⟨liveFirst, by decide +kernel, by decide +kernel⟩)

/-- That it uses poetry counts as a duplicate, and is lost. -/
theorem other_tool_lost :
    ¬ ∀ (store : DurableStore ℕ) (candidate : MemoryCandidate ℕ),
      candidate.rejection asciiTables = "" →
        KeepsNew asciiTables awareMicros newYearStamp [] [] store candidate := by
  intro hclaim
  have hkeeps := hclaim uvStore (decision "Project uses poetry") (by decide +kernel)
  have happly : (apply asciiTables awareMicros newYearStamp [] [] uvStore
      (decision "Project uses poetry")).map (fun answer =>
        (answer.2.action, answer.2.record.map DurableRecord.statement)) =
      some (.duplicate, some "Project uses uv".toList) := by decide +kernel
  obtain ⟨⟨after, outcome⟩, houtcome, hanswer⟩ := Option.map_eq_some_iff.mp happly
  obtain ⟨haction, hstatement⟩ := Prod.mk.inj hanswer
  obtain ⟨record, hrecord, hkept⟩ := hkeeps.informed after outcome houtcome haction
  dsimp only at hstatement
  rw [hrecord, Option.map_some, Option.some.injEq] at hstatement
  rw [hstatement] at hkept
  revert hkept
  decide +kernel

end Memory
end CodeCub

import CodeCub.Memory.Consolidation

/-!
# Retrieval

`codecub/memory_v2/retrieval.py`: the evidence and the durable records that a query matches are
ranked, and the first ones of each kind are returned as long as the limits allow.  This is a
retrieval that is not answered from the cache.
-/

namespace CodeCub
namespace Memory

open Python

/-! ## Taking what fits -/

section Gather

variable {I : Type} (tokens : I → ℕ) (limit budget : ℤ)

/-- The items that are taken after `used` tokens: a loop that stops at the first item that it
does not take. -/
def gather (used : ℕ) : List I → List I
  | [] => []
  | item :: rest =>
      if limit ≤ used ∨ 0 < used ∧ budget - used < tokens item then []
      else item :: gather (used + tokens item) rest

def tokensOf (items : List I) : ℕ := (items.map tokens).sum

variable {tokens limit budget}

theorem gather_cons (used : ℕ) (item : I) (rest : List I) :
    gather tokens limit budget used (item :: rest) =
      if limit ≤ used ∨ 0 < used ∧ budget - used < tokens item then []
      else item :: gather tokens limit budget (used + tokens item) rest :=
  rfl

theorem tokensOf_cons (item : I) (rest : List I) :
    tokensOf tokens (item :: rest) = tokens item + tokensOf tokens rest :=
  List.sum_cons

theorem gather_of_limit {used : ℕ} (h : limit ≤ used) (items : List I) :
    gather tokens limit budget used items = [] := by
  cases items with
  | nil => rfl
  | cons item rest => rw [gather_cons, if_pos (Or.inl h)]

theorem gather_prefix (used : ℕ) (items : List I) :
    gather tokens limit budget used items <+: items := by
  induction items generalizing used with
  | nil => exact List.prefix_refl _
  | cons item rest ih =>
      rw [gather_cons]
      split
      · exact List.nil_prefix
      · exact List.cons_prefix_cons.mpr ⟨rfl, ih _⟩

/-- Every item uses a token, so the limit on the tokens bounds the number of items. -/
theorem length_gather_le (htokens : ∀ item, 1 ≤ tokens item) (used : ℕ) (items : List I) :
    ((gather tokens limit budget used items).length : ℤ) ≤ max (limit - used) 0 := by
  induction items generalizing used with
  | nil => exact le_max_right _ _
  | cons item rest ih =>
      rw [gather_cons]
      split
      · exact le_max_right _ _
      · next hgoes =>
          have hrest := ih (used + tokens item)
          have hitem := htokens item
          push Not at hgoes
          rw [List.length_cons]
          push_cast at hrest ⊢
          omega

theorem length_le_tokensOf (htokens : ∀ item, 1 ≤ tokens item) (items : List I) :
    items.length ≤ tokensOf tokens items := by
  induction items with
  | nil => exact Nat.le_refl _
  | cons item rest ih =>
      have hitem := htokens item
      rw [tokensOf_cons, List.length_cons]
      omega

/-- Once something is used, the budget is kept. -/
theorem tokensOf_gather_le {used : ℕ} (hused : 0 < used) (hbudget : (used : ℤ) ≤ budget)
    (items : List I) :
    ((used + tokensOf tokens (gather tokens limit budget used items) : ℕ) : ℤ) ≤ budget := by
  induction items generalizing used with
  | nil => exact hbudget
  | cons item rest ih =>
      rw [gather_cons]
      split
      · exact hbudget
      · next hgoes =>
          push Not at hgoes
          have hfits := hgoes.2 hused
          have hrest := ih (show 0 < used + tokens item by omega)
            (show ((used + tokens item : ℕ) : ℤ) ≤ budget by push_cast; omega)
          rw [tokensOf_cons, ← Nat.add_assoc]
          exact hrest

theorem gather_of_over (htokens : ∀ item, 1 ≤ tokens item) {used : ℕ} (hused : 0 < used)
    (hover : budget < used) (items : List I) : gather tokens limit budget used items = [] := by
  cases items with
  | nil => rfl
  | cons item rest =>
      have hitem := htokens item
      rw [gather_cons, if_pos (Or.inr ⟨hused, by omega⟩)]

/-- From the start, the budget is kept or there is one item. -/
theorem gather_within (htokens : ∀ item, 1 ≤ tokens item) (items : List I) :
    ((tokensOf tokens (gather tokens limit budget 0 items) : ℕ) : ℤ) ≤ budget ∨
      (gather tokens limit budget 0 items).length ≤ 1 := by
  cases items with
  | nil => exact Or.inr (Nat.zero_le _)
  | cons item rest =>
      have hitem := htokens item
      rw [gather_cons]
      split
      · exact Or.inr (Nat.zero_le _)
      · rw [Nat.zero_add]
        by_cases hfits : (tokens item : ℤ) ≤ budget
        · have hrest := @tokensOf_gather_le I tokens limit budget _ (by omega) hfits rest
          rw [tokensOf_cons]
          exact Or.inl hrest
        · rw [gather_of_over htokens (by omega) (by omega)]
          exact Or.inr (Nat.le_refl _)

/-- Below the limit, what comes next does not fit. -/
theorem gather_stops {used : ℕ} {items : List I} {next : I}
    (hbelow : ((used + tokensOf tokens (gather tokens limit budget used items) : ℕ) : ℤ) < limit)
    (hnext : (items.drop (gather tokens limit budget used items).length).head? = some next) :
    budget < ((used + tokensOf tokens (gather tokens limit budget used items) : ℕ) : ℤ) +
      tokens next := by
  induction items generalizing used with
  | nil =>
      rw [List.drop_nil] at hnext
      cases hnext
  | cons item rest ih =>
      rw [gather_cons] at hbelow hnext ⊢
      split at hbelow
      · next hstop =>
          rw [if_pos hstop] at hnext ⊢
          obtain rfl := Option.some.inj hnext
          obtain hlimit | hover := hstop
          · exact absurd hbelow (by push_cast; omega)
          · have hnothing : tokensOf tokens ([] : List I) = 0 := rfl
            rw [hnothing]
            push_cast
            omega
      · next hgoes =>
          rw [if_neg hgoes] at hnext ⊢
          rw [List.length_cons, List.drop_succ_cons] at hnext
          rw [tokensOf_cons, ← Nat.add_assoc] at hbelow ⊢
          exact ih hbelow hnext

/-- Two loops that share what is used. -/
theorem length_gather_gather_le (htokens : ∀ item, 1 ≤ tokens item) {first last : List I}
    {used : ℕ} (hused : used = tokensOf tokens (gather tokens limit budget 0 first)) :
    ((gather tokens limit budget 0 first).length : ℤ) +
      (gather tokens limit budget used last).length ≤ max limit 0 := by
  have hfirst := @length_gather_le I tokens limit budget htokens 0 first
  have hlast := @length_gather_le I tokens limit budget htokens used last
  have hspent := length_le_tokensOf htokens (gather tokens limit budget 0 first)
  omega

theorem gather_gather_within (htokens : ∀ item, 1 ≤ tokens item) {first last : List I}
    {used : ℕ} (hused : used = tokensOf tokens (gather tokens limit budget 0 first)) :
    ((used + tokensOf tokens (gather tokens limit budget used last) : ℕ) : ℤ) ≤ budget ∨
      (gather tokens limit budget 0 first).length +
        (gather tokens limit budget used last).length ≤ 1 := by
  have hwithin := @gather_within I tokens limit budget htokens first
  by_cases hempty : gather tokens limit budget 0 first = []
  · have hzero : used = 0 := by
      rw [hused, hempty]
      rfl
    rw [hempty, hzero, List.length_nil, Nat.zero_add, Nat.zero_add]
    exact gather_within htokens last
  · have hsome := List.length_pos_iff.mpr hempty
    have hspent := length_le_tokensOf htokens (gather tokens limit budget 0 first)
    by_cases hover : budget < used
    · rw [gather_of_over htokens (by omega) hover, List.length_nil]
      exact Or.inr (hwithin.resolve_left (by omega))
    · exact Or.inl (tokensOf_gather_le (by omega) (by omega) last)

end Gather

/-! ## Ranking -/

variable {F : Type}

structure RetrievalItem (F : Type) where
  kind : String
  text : Str
  marker : String
  recordId : Str
  path : Str
  symbol : Str
  topic : String
  status : String
  reason : String
  score : F
  deriving DecidableEq

/-- A record with its score and the reasons for it. -/
structure Scored (R F : Type) where
  score : F
  record : R
  reason : String
  deriving DecidableEq

structure RetrievalResult (F : Type) where
  query : Str
  evidenceItems : List (RetrievalItem F)
  durableItems : List (RetrievalItem F)
  staleCount : ℕ
  missingCount : ℕ
  suppressedUsedCount : ℕ
  totalTokens : ℕ
  evidenceTopK : ℤ
  durableTopK : ℤ
  tokenBudget : ℤ

/-- `result.items`. -/
def RetrievalResult.items (result : RetrievalResult F) : List (RetrievalItem F) :=
  result.evidenceItems ++ result.durableItems

/-- `MemoryRetriever`: `counter` is `int(token_counter.count(text))`, where that is there and
does not raise, and `weigh points confidence` is the float
`points * max(0.1, min(1.0, confidence or 1.0))`. -/
structure Retriever (F : Type) where
  unicode : Unicode
  weigh : ℤ → F → F
  counter : Str → Option ℤ
  evidenceTopK : ℤ
  durableTopK : ℤ
  tokenBudget : ℤ
  overallLimit : ℤ
  readPaths : Finset Str

def EvidenceStatus.text : EvidenceStatus → String
  | .fresh => "fresh"
  | .stale => "stale"
  | .missing => "missing"
  | .superseded => "superseded"

/-- `EVIDENCE_KIND_WEIGHTS.get(kind, 0)`. -/
def evidenceKindWeight (kind : Str) : ℤ :=
  (([("source_location", 20), ("symbol_location", 20), ("test_command", 15),
    ("verification_result", 10), ("resolution", 5), ("architecture_anchor", 5),
    ("dependency_location", 10), ("config_location", 10),
    ("error_resolution", (15 : ℤ))].find? fun entry => entry.1.toList = kind).map
      Prod.snd).getD 0

def Topic.text : Topic → String
  | .projectConventions => "project-conventions"
  | .keyDecisions => "key-decisions"
  | .dependencyFacts => "dependency-facts"
  | .userPreferences => "user-preferences"
  | .buildAndTest => "build-and-test"
  | .environmentConstraints => "environment-constraints"
  | .validatedWorkflows => "validated-workflows"
  | .knownPitfalls => "known-pitfalls"

def Topic.weight : Topic → ℤ
  | .buildAndTest => 20
  | .environmentConstraints => 15
  | .validatedWorkflows => 15
  | .projectConventions => 10
  | .knownPitfalls => 10
  | .keyDecisions => 5
  | .dependencyFacts => 5
  | .userPreferences => 5

/-- What a signal adds to the points, and why. -/
abbrev Signal := Option (ℤ × String)

def pointsOf (signals : List Signal) : ℤ := ((signals.filterMap id).map Prod.fst).sum

def reasonsOf (signals : List Signal) : List String := (signals.filterMap id).map Prod.snd

namespace Retriever

variable (retriever : Retriever F)

/-- `{...} & query_tokens`. -/
def shared (text : Str) (queryTokens : Finset Str) : Finset Str :=
  retriever.unicode.tokens text ∩ queryTokens

def pathSignal (path : Str) (queryTokens : Finset Str) (query : Str) : Signal :=
  if path ≠ [] ∧ Unicode.occursIn path query then some (300, "exact_path")
  else if retriever.shared path queryTokens ≠ ∅ then
    some (20 * (retriever.shared path queryTokens).card, "path_tokens")
  else none

def symbolSignal (symbol : Str) (queryTokens : Finset Str) (query : Str) : Signal :=
  if symbol ≠ [] ∧ Unicode.occursIn (retriever.unicode.lower symbol) (retriever.unicode.lower query)
  then some (250, "exact_symbol")
  else if retriever.shared symbol queryTokens ≠ ∅ then some (60, "symbol_tokens")
  else none

def tagSignal (tags : List Str) (queryTokens : Finset Str) : Signal :=
  if retriever.shared (List.intercalate [' '] tags) queryTokens ≠ ∅ then some (30, "tags") else none

def keywordSignal (text : Str) (queryTokens : Finset Str) : Signal :=
  if retriever.shared text queryTokens ≠ ∅ then
    some (15 * min (retriever.shared text queryTokens).card 6, "keywords")
  else none

/-- `_score_evidence`.  A record of evidence has no use count. -/
def scoreEvidence (query : Str) (record : EvidenceRecord F) :
    Option (Scored (EvidenceRecord F) F) :=
  let queryTokens := retriever.unicode.tokens query
  let signals := [retriever.pathSignal record.path queryTokens query,
    retriever.symbolSignal record.symbol queryTokens query,
    retriever.tagSignal record.tags queryTokens, retriever.keywordSignal record.summary queryTokens]
  if reasonsOf signals = [] then none
  else
    some {
      score := retriever.weigh (pointsOf signals + (if record.status = .fresh then 60 else 0) +
        evidenceKindWeight record.kind) record.confidence
      record := record
      reason := "; ".intercalate (reasonsOf signals) }

/-- `_score_durable`. -/
def scoreDurable (query : Str) (record : DurableRecord F) : Option (Scored (DurableRecord F) F) :=
  let queryTokens := retriever.unicode.tokens query
  let signals := [retriever.keywordSignal record.statement queryTokens,
    retriever.tagSignal record.tags queryTokens]
  if reasonsOf signals = [] then none
  else
    some {
      score := retriever.weigh (pointsOf signals + record.topic.weight + 5 * min record.useCount 2 -
        (if record.conflictWith = [] then 0 else 40)) record.confidence
      record := record
      reason := "; ".intercalate
        (reasonsOf signals ++ if record.conflictWith = [] then [] else ["conflict"]) }

/-- The first record of each path that is not in `seen`. -/
def firstOfPaths (seen : List Str) : List (EvidenceRecord F) → List (EvidenceRecord F)
  | [] => []
  | record :: rest =>
      if record.superseded ∨ record.path ∈ seen then firstOfPaths seen rest
      else record :: firstOfPaths (record.path :: seen) rest

/-- `scored[:k]`. -/
def topK {A : Type} (k : ℤ) (scored : List A) : List A :=
  if k < 0 then scored.take (scored.length + k).toNat else scored.take k.toNat

/-! ## Items -/

/-- `_clip`. -/
def clip (text : Str) (limit : ℕ) : Str :=
  if text.length ≤ limit then text else text.take limit ++ "...".toList

/-- `_count`. -/
def count (text : Str) : ℕ :=
  match retriever.counter text with
  | some n => max 1 n.toNat
  | none => max 1 text.length

def itemTokens (item : RetrievalItem F) : ℕ := retriever.count item.text

/-- The path was delivered and has been read since. -/
def suppressed (record : EvidenceRecord F) : Bool :=
  record.path ≠ [] ∧ record.path ∈ retriever.readPaths

def evidenceText (record : EvidenceRecord F) : Str :=
  let location :=
    if record.path ≠ [] ∧ record.symbol ≠ [] then record.path ++ ':' :: record.symbol
    else if record.path = [] then "(verified command)".toList
    else record.path
  location ++ " — ".toList ++ record.summary ++
    match record.status with
    | .stale => " (STALE—REVALIDATE: re-read before relying on details)".toList
    | .missing => " (may have moved or been deleted)".toList
    | _ => []

def evidenceItem (entry : Scored (EvidenceRecord F) F) : RetrievalItem F where
  kind := "evidence"
  text := clip (evidenceText entry.record) 220
  marker :=
    match entry.record.status with
    | .stale => "STALE—REVALIDATE"
    | .missing => "MISSING"
    | _ => "FRESH"
  recordId := entry.record.evidenceId
  path := entry.record.path
  symbol := entry.record.symbol
  topic := ""
  status := entry.record.status.text
  reason := entry.reason
  score := entry.score

def durableText (record : DurableRecord F) : Str :=
  record.statement ++ " (".toList ++ record.topic.text.toList ++ ")".toList

def durableItem (entry : Scored (DurableRecord F) F) : RetrievalItem F where
  kind := "durable"
  text := clip (durableText entry.record) 220
  marker := if entry.record.conflictWith = [] then "ACTIVE" else "CONFLICT"
  recordId := entry.record.memoryId
  path := []
  symbol := []
  topic := entry.record.topic.text
  status := "active"
  reason := entry.reason
  score := entry.score

/-! ## The two loops -/

/-- The locals of `retrieve`. -/
structure Gathering (F : Type) where
  evidenceItems : List (RetrievalItem F) := []
  durableItems : List (RetrievalItem F) := []
  staleCount : ℕ := 0
  missingCount : ℕ := 0
  suppressed : ℕ := 0
  used : ℕ := 0

/-- The counts of an evidence record that is looked at. -/
def Gathering.seen (state : Gathering F) (record : EvidenceRecord F) : Gathering F :=
  match record.status with
  | .stale => { state with staleCount := state.staleCount + 1 }
  | .missing => { state with missingCount := state.missingCount + 1 }
  | _ => state

def gatherEvidence (state : Gathering F) : List (Scored (EvidenceRecord F) F) → Gathering F
  | [] => state
  | entry :: rest =>
      if retriever.overallLimit ≤ state.used then state
      else if retriever.suppressed entry.record then
        gatherEvidence { state with suppressed := state.suppressed + 1 } rest
      else
        let seen := state.seen entry.record
        if retriever.unicode.containsSecret (evidenceText entry.record) then
          gatherEvidence seen rest
        else if 0 < state.used ∧
            retriever.tokenBudget - state.used < retriever.itemTokens (evidenceItem entry) then seen
        else
          gatherEvidence { seen with
            evidenceItems := state.evidenceItems ++ [evidenceItem entry]
            used := state.used + retriever.itemTokens (evidenceItem entry) } rest

def gatherDurable (state : Gathering F) : List (Scored (DurableRecord F) F) → Gathering F
  | [] => state
  | entry :: rest =>
      if retriever.overallLimit ≤ state.used then state
      else if retriever.unicode.containsSecret (durableText entry.record) then
        gatherDurable state rest
      else if 0 < state.used ∧
          retriever.tokenBudget - state.used < retriever.itemTokens (durableItem entry) then state
      else
        gatherDurable { state with
          durableItems := state.durableItems ++ [durableItem entry]
          used := state.used + retriever.itemTokens (durableItem entry) } rest

/-! ## What is returned -/

/-- The item of evidence that is neither suppressed nor secret. -/
def offerEvidence (entry : Scored (EvidenceRecord F) F) : Option (RetrievalItem F) :=
  if retriever.suppressed entry.record ∨
      retriever.unicode.containsSecret (evidenceText entry.record) then none
  else some (evidenceItem entry)

def offeredEvidence (entries : List (Scored (EvidenceRecord F) F)) : List (RetrievalItem F) :=
  entries.filterMap retriever.offerEvidence

def offerDurable (entry : Scored (DurableRecord F) F) : Option (RetrievalItem F) :=
  if retriever.unicode.containsSecret (durableText entry.record) then none
  else some (durableItem entry)

def offeredDurable (entries : List (Scored (DurableRecord F) F)) : List (RetrievalItem F) :=
  entries.filterMap retriever.offerDurable

/-- What a loop takes of its offers. -/
def taken (used : ℕ) (offers : List (RetrievalItem F)) : List (RetrievalItem F) :=
  gather retriever.itemTokens retriever.overallLimit retriever.tokenBudget used offers

variable {retriever}

theorem one_le_itemTokens (item : RetrievalItem F) : 1 ≤ retriever.itemTokens item := by
  rw [itemTokens, count]
  split
  · exact le_max_left _ _
  · exact le_max_left _ _

theorem seen_evidenceItems (state : Gathering F) (record : EvidenceRecord F) :
    (state.seen record).evidenceItems = state.evidenceItems ∧
      (state.seen record).durableItems = state.durableItems ∧
        (state.seen record).used = state.used := by
  rw [Gathering.seen]
  split
  · exact ⟨rfl, rfl, rfl⟩
  · exact ⟨rfl, rfl, rfl⟩
  · exact ⟨rfl, rfl, rfl⟩

theorem gatherEvidence_eq (state : Gathering F) (entries : List (Scored (EvidenceRecord F) F)) :
    (retriever.gatherEvidence state entries).evidenceItems =
        state.evidenceItems ++ retriever.taken state.used (retriever.offeredEvidence entries) ∧
      (retriever.gatherEvidence state entries).durableItems = state.durableItems ∧
      (retriever.gatherEvidence state entries).used = state.used +
        tokensOf retriever.itemTokens
          (retriever.taken state.used (retriever.offeredEvidence entries)) := by
  induction entries generalizing state with
  | nil => exact ⟨(List.append_nil _).symm, rfl, rfl⟩
  | cons entry rest ih =>
      obtain ⟨hitems, hdurable, hused⟩ := seen_evidenceItems state entry.record
      rw [gatherEvidence]
      split
      · next hlimit =>
          rw [taken, gather_of_limit hlimit]
          exact ⟨(List.append_nil _).symm, rfl, rfl⟩
      · next hbelow =>
          split
          · next hsuppressed =>
              have hoffer : retriever.offeredEvidence (entry :: rest) =
                  retriever.offeredEvidence rest :=
                List.filterMap_cons_none (if_pos (Or.inl hsuppressed))
              rw [hoffer]
              exact ih { state with suppressed := state.suppressed + 1 }
          · next hsuppressed =>
              dsimp only
              split
              · next hsecret =>
                  have hoffer : retriever.offeredEvidence (entry :: rest) =
                      retriever.offeredEvidence rest :=
                    List.filterMap_cons_none (if_pos (Or.inr hsecret))
                  have hrest := ih (state.seen entry.record)
                  rw [hitems, hdurable, hused] at hrest
                  rw [hoffer]
                  exact hrest
              · next hsecret =>
                  have hoffer : retriever.offeredEvidence (entry :: rest) =
                      evidenceItem entry :: retriever.offeredEvidence rest :=
                    List.filterMap_cons_some (if_neg (not_or.mpr ⟨hsuppressed, hsecret⟩))
                  rw [hoffer, taken, gather_cons]
                  split
                  · next hover =>
                      rw [if_pos (Or.inr hover), hitems, hdurable, hused]
                      exact ⟨(List.append_nil _).symm, rfl, rfl⟩
                  · next hfits =>
                      rw [if_neg (not_or.mpr ⟨hbelow, hfits⟩)]
                      obtain ⟨hall, hsame, htotal⟩ := ih { state.seen entry.record with
                        evidenceItems := state.evidenceItems ++ [evidenceItem entry]
                        used := state.used + retriever.itemTokens (evidenceItem entry) }
                      refine ⟨?_, ?_, ?_⟩
                      · rw [hall, List.append_assoc]
                        rfl
                      · rw [hsame, hdurable]
                      · rw [htotal, tokensOf_cons, ← Nat.add_assoc]
                        rfl

theorem gatherDurable_eq (state : Gathering F) (entries : List (Scored (DurableRecord F) F)) :
    (retriever.gatherDurable state entries).durableItems =
        state.durableItems ++ retriever.taken state.used (retriever.offeredDurable entries) ∧
      (retriever.gatherDurable state entries).evidenceItems = state.evidenceItems ∧
      (retriever.gatherDurable state entries).used = state.used +
        tokensOf retriever.itemTokens
          (retriever.taken state.used (retriever.offeredDurable entries)) := by
  induction entries generalizing state with
  | nil => exact ⟨(List.append_nil _).symm, rfl, rfl⟩
  | cons entry rest ih =>
      rw [gatherDurable]
      split
      · next hlimit =>
          rw [taken, gather_of_limit hlimit]
          exact ⟨(List.append_nil _).symm, rfl, rfl⟩
      · next hbelow =>
          split
          · next hsecret =>
              have hoffer : retriever.offeredDurable (entry :: rest) = retriever.offeredDurable rest :=
                List.filterMap_cons_none (if_pos hsecret)
              rw [hoffer]
              exact ih state
          · next hsecret =>
              have hoffer : retriever.offeredDurable (entry :: rest) =
                  durableItem entry :: retriever.offeredDurable rest :=
                List.filterMap_cons_some (if_neg hsecret)
              rw [hoffer, taken, gather_cons]
              split
              · next hover =>
                  rw [if_pos (Or.inr hover)]
                  exact ⟨(List.append_nil _).symm, rfl, rfl⟩
              · next hfits =>
                  rw [if_neg (not_or.mpr ⟨hbelow, hfits⟩)]
                  obtain ⟨hall, hsame, htotal⟩ := ih { state with
                    durableItems := state.durableItems ++ [durableItem entry]
                    used := state.used + retriever.itemTokens (durableItem entry) }
                  refine ⟨?_, hsame, ?_⟩
                  · rw [hall, List.append_assoc]
                    rfl
                  · rw [htotal, tokensOf_cons, ← Nat.add_assoc]
                    rfl

/-! ## What is selected -/

theorem topK_sublist {A : Type} (k : ℤ) (scored : List A) : (topK k scored).Sublist scored := by
  rw [topK]
  split
  · exact List.take_sublist _ _
  · exact List.take_sublist _ _

/-- The records of the first of each path have different paths, none of them in `seen`. -/
theorem firstOfPaths_nodup (seen : List Str) (records : List (EvidenceRecord F)) :
    ((firstOfPaths seen records).map EvidenceRecord.path).Nodup ∧
      ∀ record ∈ firstOfPaths seen records, record ∈ records ∧ record.path ∉ seen := by
  induction records generalizing seen with
  | nil => exact ⟨List.nodup_nil, by intro record h; cases h⟩
  | cons first rest ih =>
      rw [firstOfPaths]
      split
      · obtain ⟨hnodup, hmem⟩ := ih seen
        refine ⟨hnodup, fun record h => ?_⟩
        exact ⟨List.mem_cons_of_mem _ (hmem record h).1, (hmem record h).2⟩
      · next hnew =>
          obtain ⟨hnodup, hmem⟩ := ih (first.path :: seen)
          constructor
          · rw [List.map_cons, List.nodup_cons]
            refine ⟨fun h => ?_, hnodup⟩
            obtain ⟨record, hrecord, hpath⟩ := List.mem_map.mp h
            exact (hmem record hrecord).2 (hpath ▸ List.mem_cons_self)
          · intro record h
            obtain rfl | h := List.mem_cons.mp h
            · exact ⟨List.mem_cons_self, (not_or.mp hnew).2⟩
            · obtain ⟨hrest, hseen⟩ := hmem record h
              exact ⟨List.mem_cons_of_mem _ hrest, fun hin => hseen (List.mem_cons_of_mem _ hin)⟩

theorem scoreEvidence_record {query : Str} {record : EvidenceRecord F}
    {entry : Scored (EvidenceRecord F) F} (h : retriever.scoreEvidence query record = some entry) :
    entry.record = record := by
  rw [scoreEvidence] at h
  split at h
  · cases h
  · obtain rfl := Option.some.inj h
    rfl

theorem map_record_scored (query : Str) (records : List (EvidenceRecord F)) :
    ((records.filterMap (retriever.scoreEvidence query)).map Scored.record).Sublist records := by
  induction records with
  | nil => exact List.Sublist.refl _
  | cons record rest ih =>
      cases hscore : retriever.scoreEvidence query record with
      | none =>
          rw [List.filterMap_cons_none hscore]
          exact ih.cons record
      | some entry =>
          rw [List.filterMap_cons_some hscore, List.map_cons, scoreEvidence_record hscore]
          exact ih.cons_cons record

theorem offeredEvidence_paths (entries : List (Scored (EvidenceRecord F) F)) :
    ((retriever.offeredEvidence entries).map RetrievalItem.path).Sublist
      (entries.map fun entry => entry.record.path) := by
  induction entries with
  | nil => exact List.Sublist.refl _
  | cons entry rest ih =>
      by_cases hout : retriever.suppressed entry.record ∨
          retriever.unicode.containsSecret (evidenceText entry.record)
      · have hoffer : retriever.offeredEvidence (entry :: rest) = retriever.offeredEvidence rest :=
          List.filterMap_cons_none (if_pos hout)
        rw [hoffer, List.map_cons]
        exact ih.cons _
      · have hoffer : retriever.offeredEvidence (entry :: rest) =
            evidenceItem entry :: retriever.offeredEvidence rest :=
          List.filterMap_cons_some (if_neg hout)
        rw [hoffer, List.map_cons, List.map_cons]
        exact ih.cons_cons _

theorem tokensOf_items (result : RetrievalResult F) :
    tokensOf retriever.itemTokens result.items =
      tokensOf retriever.itemTokens result.evidenceItems +
        tokensOf retriever.itemTokens result.durableItems := by
  rw [tokensOf, RetrievalResult.items, List.map_append, List.sum_append, ← tokensOf, ← tokensOf]

/-! ## The whole retrieval -/

variable [LinearOrder F] (retriever)

def higherFirst {R : Type} (a b : Scored R F) : Bool := b.score ≤ a.score

/-- `_select_evidence`. -/
def selectEvidence (store : EvidenceStore F) (query : Str) : List (Scored (EvidenceRecord F) F) :=
  topK retriever.evidenceTopK
    (((firstOfPaths [] store.latestRecords).filterMap (retriever.scoreEvidence query)).mergeSort
      higherFirst)

/-- `_select_durable`. -/
def selectDurable (store : DurableStore F) (query : Str) : List (Scored (DurableRecord F) F) :=
  topK retriever.durableTopK
    ((store.activeRecords.filterMap (retriever.scoreDurable query)).mergeSort higherFirst)

/-- `MemoryRetriever.retrieve`. -/
def retrieve (evidence : EvidenceStore F) (durable : DurableStore F)
    (query : Str) : RetrievalResult F :=
  let state := retriever.gatherDurable
    (retriever.gatherEvidence {} (retriever.selectEvidence evidence query))
    (retriever.selectDurable durable query)
  { query := query
    evidenceItems := state.evidenceItems
    durableItems := state.durableItems
    staleCount := state.staleCount
    missingCount := state.missingCount
    suppressedUsedCount := state.suppressed
    totalTokens := state.used
    evidenceTopK := retriever.evidenceTopK
    durableTopK := retriever.durableTopK
    tokenBudget := retriever.tokenBudget }

/-- The selected evidence is live, and of different paths. -/
theorem selectEvidence_spec (store : EvidenceStore F) (query : Str) :
    ((retriever.selectEvidence store query).map fun entry => entry.record.path).Nodup ∧
      ∀ entry ∈ retriever.selectEvidence store query, entry.record ∈ store.latestRecords := by
  obtain ⟨hnodup, hmem⟩ := firstOfPaths_nodup [] store.latestRecords
  have hsublist := topK_sublist retriever.evidenceTopK
    (((firstOfPaths [] store.latestRecords).filterMap (retriever.scoreEvidence query)).mergeSort
      higherFirst)
  have hperm := List.mergeSort_perm
    ((firstOfPaths [] store.latestRecords).filterMap (retriever.scoreEvidence query)) higherFirst
  have hrecords := @map_record_scored F retriever query (firstOfPaths [] store.latestRecords)
  constructor
  · refine (hsublist.map _).nodup ((hperm.map _).nodup_iff.mpr ?_)
    have hpaths := hrecords.map EvidenceRecord.path
    rw [List.map_map] at hpaths
    exact hpaths.nodup hnodup
  · intro entry hentry
    have hscored := hperm.mem_iff.mp (hsublist.subset hentry)
    exact (hmem _ (hrecords.subset (List.mem_map_of_mem hscored))).1

/-- What a retrieval returns: a prefix of the offers of each kind. -/
structure Bounded (evidence : EvidenceStore F) (durable : DurableStore F) (query : Str)
    (result : RetrievalResult F) : Prop where
  count : (result.items.length : ℤ) ≤ max retriever.overallLimit 0
  total : result.totalTokens = tokensOf retriever.itemTokens result.items
  budget : (result.totalTokens : ℤ) ≤ retriever.tokenBudget ∨ result.items.length ≤ 1
  evidencePrefix :
    result.evidenceItems <+: retriever.offeredEvidence (retriever.selectEvidence evidence query)
  durablePrefix :
    result.durableItems <+: retriever.offeredDurable (retriever.selectDurable durable query)
  evidenceStops : (result.totalTokens : ℤ) < retriever.overallLimit →
    ∀ next, ((retriever.offeredEvidence (retriever.selectEvidence evidence query)).drop
      result.evidenceItems.length).head? = some next →
      retriever.tokenBudget < (tokensOf retriever.itemTokens result.evidenceItems : ℤ) +
        retriever.itemTokens next
  durableStops : (result.totalTokens : ℤ) < retriever.overallLimit →
    ∀ next, ((retriever.offeredDurable (retriever.selectDurable durable query)).drop
      result.durableItems.length).head? = some next →
      retriever.tokenBudget < (result.totalTokens : ℤ) + retriever.itemTokens next
  paths : (result.evidenceItems.map RetrievalItem.path).Nodup
  live : ∀ item ∈ result.evidenceItems, ∃ entry ∈ retriever.selectEvidence evidence query,
    entry.record ∈ evidence.latestRecords ∧ item = evidenceItem entry

/-- The items of a retrieval are what its loops take, one after the other. -/
theorem retrieve_items (evidence : EvidenceStore F) (durable : DurableStore F) (query : Str) :
    (retriever.retrieve evidence durable query).evidenceItems =
        retriever.taken 0 (retriever.offeredEvidence (retriever.selectEvidence evidence query)) ∧
      (retriever.retrieve evidence durable query).durableItems =
        retriever.taken (tokensOf retriever.itemTokens
            (retriever.retrieve evidence durable query).evidenceItems)
          (retriever.offeredDurable (retriever.selectDurable durable query)) ∧
      (retriever.retrieve evidence durable query).totalTokens =
        tokensOf retriever.itemTokens (retriever.retrieve evidence durable query).evidenceItems +
          tokensOf retriever.itemTokens
            (retriever.retrieve evidence durable query).durableItems := by
  obtain ⟨hfirst, hnone, hused⟩ :=
    @gatherEvidence_eq F retriever {} (retriever.selectEvidence evidence query)
  obtain ⟨hlast, hsame, htotal⟩ := @gatherDurable_eq F retriever
    (retriever.gatherEvidence {} (retriever.selectEvidence evidence query))
    (retriever.selectDurable durable query)
  rw [List.nil_append] at hfirst
  rw [Nat.zero_add, ← hfirst] at hused
  rw [hnone, List.nil_append, hused, ← hsame] at hlast
  rw [hused, ← hsame] at htotal
  refine ⟨hsame.trans hfirst, hlast, ?_⟩
  rw [← hlast] at htotal
  exact htotal

/-- Every retrieval keeps its limits, as far as it has more than one item, and below the limit
on the items it stops only where the next record does not fit. -/
theorem retrieve_bounded (evidence : EvidenceStore F) (durable : DurableStore F) (query : Str) :
    retriever.Bounded evidence durable query (retriever.retrieve evidence durable query) := by
  obtain ⟨hevidence, hdurable, htotal⟩ := retriever.retrieve_items evidence durable query
  have htokens := @one_le_itemTokens F retriever
  have hitems : (retriever.retrieve evidence durable query).items.length =
      (retriever.retrieve evidence durable query).evidenceItems.length +
        (retriever.retrieve evidence durable query).durableItems.length := List.length_append
  have hfront : (retriever.retrieve evidence durable query).evidenceItems <+:
      retriever.offeredEvidence (retriever.selectEvidence evidence query) := by
    rw [hevidence]
    exact gather_prefix _ _
  obtain ⟨hnodup, hlive⟩ := retriever.selectEvidence_spec evidence query
  have hspent : tokensOf retriever.itemTokens
      (retriever.retrieve evidence durable query).evidenceItems = tokensOf retriever.itemTokens
        (retriever.taken 0 (retriever.offeredEvidence (retriever.selectEvidence evidence query))) :=
    congrArg _ hevidence
  refine ⟨?_, ?_, ?_, hfront, ?_, ?_, ?_, ?_, ?_⟩
  · rw [hitems, hevidence, hdurable]
    push_cast
    exact length_gather_gather_le htokens hspent
  · rw [htotal, tokensOf_items]
  · have hwithin := @gather_gather_within _ retriever.itemTokens retriever.overallLimit
      retriever.tokenBudget htokens _
      (retriever.offeredDurable (retriever.selectDurable durable query)) _ hspent
    rw [← taken, ← taken, ← hdurable, ← hevidence, ← htotal, ← hitems] at hwithin
    exact hwithin
  · rw [hdurable]
    exact gather_prefix _ _
  · intro hbelow next hnext
    rw [hevidence] at hnext
    have hstops := @gather_stops _ retriever.itemTokens retriever.overallLimit
      retriever.tokenBudget 0 _ next (by rw [← taken, ← hevidence]; omega) hnext
    rw [← taken, ← hevidence, Nat.zero_add] at hstops
    exact hstops
  · intro hbelow next hnext
    rw [htotal] at hbelow ⊢
    rw [hdurable] at hbelow hnext ⊢
    exact gather_stops hbelow hnext
  · exact ((hfront.sublist.map _).trans (offeredEvidence_paths _)).nodup hnodup
  · intro item hitem
    obtain ⟨entry, hentry, hoffer⟩ := List.mem_filterMap.mp (hfront.subset hitem)
    rw [offerEvidence] at hoffer
    split at hoffer
    · cases hoffer
    · exact ⟨entry, hentry, hlive entry hentry, (Option.some.inj hoffer).symm⟩

end Retriever

/-! The loader is found in two files, and in one of them also by its symbol. -/

def loaderNote (path symbol created : String) : EvidenceRecord ℤ where
  evidenceId := created.toList
  path := path.toList
  kind := "symbol_location".toList
  summary := "the loader".toList
  symbol := symbol.toList
  createdAt := created.toList
  confidence := 1
  status := .fresh
  tags := []

def loaderStore : EvidenceStore ℤ :=
  ⟨200, [loaderNote "a.py" "" "2026-01-01T00:00:00+00:00",
    loaderNote "a.py" "load" "2026-01-02T00:00:00+00:00",
    loaderNote "b.py" "" "2026-01-03T00:00:00+00:00"]⟩

def loaderRetriever (tokenBudget : ℤ) : Retriever ℤ where
  unicode := asciiTables
  weigh := fun points confidence => points * confidence
  counter := fun _ => none
  evidenceTopK := 2
  durableTopK := 2
  tokenBudget := tokenBudget
  overallLimit := 4
  readPaths := ∅

def loaderQuery : Str := "load the loader".toList

def loaderEntry (path created : String) : Scored (EvidenceRecord ℤ) ℤ where
  score := 110
  record := loaderNote path "" created
  reason := "keywords"

def loaderFirst : Scored (EvidenceRecord ℤ) ℤ := loaderEntry "a.py" "2026-01-01T00:00:00+00:00"

def loaderSecond : Scored (EvidenceRecord ℤ) ℤ := loaderEntry "b.py" "2026-01-03T00:00:00+00:00"

theorem selectEvidence_loader (tokenBudget : ℤ) :
    (loaderRetriever tokenBudget).selectEvidence loaderStore loaderQuery =
      [loaderFirst, loaderSecond] := by
  have hbudget : (loaderRetriever tokenBudget).scoreEvidence loaderQuery =
      (loaderRetriever 10).scoreEvidence loaderQuery := rfl
  have hscored : (Retriever.firstOfPaths [] loaderStore.latestRecords).filterMap
      ((loaderRetriever 10).scoreEvidence loaderQuery) = [loaderFirst, loaderSecond] := by
    decide +kernel
  have hsorted : [loaderFirst, loaderSecond].Pairwise fun a b => Retriever.higherFirst a b := by
    decide +kernel
  rw [Retriever.selectEvidence, hbudget, hscored, List.mergeSort_of_pairwise hsorted]
  rfl

theorem selectDurable_none (tokenBudget : ℤ) :
    (loaderRetriever tokenBudget).selectDurable ⟨400, []⟩ loaderQuery = [] := by
  have hnone : (⟨400, []⟩ : DurableStore ℤ).activeRecords = [] := rfl
  rw [Retriever.selectDurable, hnone, List.filterMap_nil, List.mergeSort_nil]
  rfl

theorem retrieve_loader (tokenBudget : ℤ) :
    ((loaderRetriever tokenBudget).retrieve loaderStore ⟨400, []⟩ loaderQuery).evidenceItems =
        [Retriever.evidenceItem loaderFirst] ∧
      ((loaderRetriever tokenBudget).retrieve loaderStore ⟨400, []⟩ loaderQuery).durableItems =
        [] ∧
      ((loaderRetriever tokenBudget).retrieve loaderStore ⟨400, []⟩ loaderQuery).totalTokens =
        17 := by
  rw [Retriever.retrieve, selectEvidence_loader, selectDurable_none]
  exact ⟨rfl, rfl, rfl⟩

/-- The first item may go over the budget; the limit of four items is not reached when the
second one is left out; and the symbol of the other record scores higher. -/
theorem loader_leaves_out :
    (∃ (retriever : Retriever ℤ) (evidence : EvidenceStore ℤ) (durable : DurableStore ℤ)
      (query : Str), retriever.tokenBudget <
        (retriever.retrieve evidence durable query).totalTokens) ∧
    (∃ (retriever : Retriever ℤ) (evidence : EvidenceStore ℤ) (durable : DurableStore ℤ)
      (query : Str),
      ∃ left ∈ retriever.offeredEvidence (retriever.selectEvidence evidence query),
        left ∉ (retriever.retrieve evidence durable query).items ∧
        ((retriever.retrieve evidence durable query).items.length + 1 : ℤ) ≤
          retriever.overallLimit ∧
        ((retriever.retrieve evidence durable query).totalTokens : ℤ) +
          retriever.itemTokens left ≤ retriever.tokenBudget) ∧
    (∃ (retriever : Retriever ℤ) (evidence : EvidenceStore ℤ) (durable : DurableStore ℤ)
      (query : Str),
      ∃ item ∈ (retriever.retrieve evidence durable query).evidenceItems,
        ∃ record ∈ evidence.latestRecords, record.path = item.path ∧
          ∃ better, retriever.scoreEvidence query record = some better ∧
            item.score < better.score) := by
  refine ⟨⟨loaderRetriever 10, loaderStore, ⟨400, []⟩, loaderQuery, ?_⟩,
    ⟨loaderRetriever 500, loaderStore, ⟨400, []⟩, loaderQuery, Retriever.evidenceItem loaderSecond,
      ?_, ?_, ?_, ?_⟩,
    ⟨loaderRetriever 500, loaderStore, ⟨400, []⟩, loaderQuery, Retriever.evidenceItem loaderFirst, ?_,
      loaderNote "a.py" "load" "2026-01-02T00:00:00+00:00", ?_, rfl, ?_⟩⟩
  · rw [(retrieve_loader 10).2.2]
    decide
  · rw [selectEvidence_loader]
    decide +kernel
  · rw [RetrievalResult.items, (retrieve_loader 500).1, (retrieve_loader 500).2.1]
    decide +kernel
  · rw [RetrievalResult.items, (retrieve_loader 500).1, (retrieve_loader 500).2.1]
    decide
  · rw [(retrieve_loader 500).2.2]
    decide +kernel
  · rw [(retrieve_loader 500).1]
    exact List.mem_singleton_self _
  · decide +kernel
  · exact ⟨⟨360, loaderNote "a.py" "load" "2026-01-02T00:00:00+00:00",
      "exact_symbol; keywords"⟩, by decide +kernel, by decide⟩

end Memory
end CodeCub

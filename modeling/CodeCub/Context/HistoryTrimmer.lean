import CodeCub.Context.ToolExchanges
import CodeCub.Python.StableSort

/-!
# The history that fits a prompt

`pico/context_engine/history_trimmer.py`: whole turns are dropped from the selected messages
until the estimate of the prompt fits, and the history that is left has whole tool exchanges.
-/

namespace CodeCub
namespace Context

open Python Saturation
open Models (truthy)
open Sessions (Obj hasRole callIds resultId textOf toolCalls)

variable {F : Type}

/-! ## What a provider is given -/

def allowedKeys : List Str :=
  ["role", "content", "tool_calls", "tool_call_id", "name", "reasoning_content",
    "thinking_blocks"].map String.toList

/-- `{k: v for k, v in message.items() if k in _ALLOWED_KEYS}`. -/
def clean (message : Obj F) : Obj F := message.filter fun entry => entry.1 ∈ allowedKeys

theorem lookup_clean {message : Obj F} {key : Str} (h : key ∈ allowedKeys) :
    (clean message).lookup key = message.lookup key := by
  induction message with
  | nil => rfl
  | cons entry message ih =>
      by_cases hkey : key = entry.1
      · rw [clean, List.filter_cons_of_pos (by simpa [hkey] using h), List.lookup_cons,
          List.lookup_cons, hkey, beq_self_eq_true]
      · rw [List.lookup_cons, beq_false_of_ne hkey, clean]
        by_cases hallowed : entry.1 ∈ allowedKeys
        · rw [List.filter_cons_of_pos (by simpa using hallowed), List.lookup_cons,
            beq_false_of_ne hkey]
          exact ih
        · rw [List.filter_cons_of_neg (by simpa using hallowed)]
          exact ih

theorem hasRole_clean (name : String) (message : Obj F) :
    hasRole name (clean message) = hasRole name message := by
  rw [hasRole, hasRole, lookup_clean (by decide)]

section Provider

variable [FiniteFloat F]

/-- The message at a place, where it has a role. -/
def historyEntry (messages : List (Obj F)) (mid : Nat) : Option (Obj F) :=
  (messages[mid]?.map clean).filter fun message =>
    (message.lookup "role".toList).any truthy

/-- `HistoryTrimmer.history_from_ids`. -/
def historyFromIds (messages : List (Obj F)) (ids : List Nat) : List (Obj F) :=
  ids.filterMap (historyEntry messages)

variable (str : Json Str F → Str) (listText : List Str → Str)

/-- `str(msg.get("tool_call_id", ""))`. -/
def answeredId (message : Obj F) : Str :=
  ((message.lookup "tool_call_id".toList).map str).getD []

def orphanText (callId : Str) : Str :=
  "tool result ".toList ++ callId ++ " has no parent assistant tool_call".toList

/-- The loop of `structural_errors`: `open_calls` with the errors. -/
def checkMessage (state : Finset Str × List Str) (message : Obj F) : Finset Str × List Str :=
  let openCalls := state.1 ∪ (callIds str message).toFinset
  if hasRole "tool" message then
    if answeredId str message ∈ openCalls then
      (openCalls.erase (answeredId str message), state.2)
    else (openCalls, state.2 ++ [orphanText (answeredId str message)])
  else (openCalls, state.2)

/-- `HistoryTrimmer.structural_errors`; `listText` is the text of a list. -/
def structuralErrors (messages : List (Obj F)) : List Str :=
  let final := messages.foldl (checkMessage str) (∅, [])
  if final.1 = ∅ then final.2
  else
    final.2 ++
      ["assistant tool_calls missing results: ".toList ++ listText (sortedSet final.1)]

end Provider

/-! ## Trimming -/

structure TrimOutcome (F : Type) where
  history : List (Obj F)
  includedIds : List Nat
  estimatedTokens : Int
  maxPromptTokens : Int
  source : Str
  warnings : List Str

/-- The arguments of `trim`, and what the trimmer has from its provider: `estimate` is
`estimate_prompt_tokens_chain`. -/
structure Trimming (F S : Type) where
  estimate : List (Obj F) → Int × Str
  contextWindowTokens : Int
  reservedOutput : Int
  buildMessages : List (Obj F) → List (Obj F)
  protectedIds : Finset Int
  priorityScores : Nat → Option S

namespace Trimming

variable {S : Type} [Zero S] [BEq S] [LT S] [DecidableLT S] (trimming : Trimming F S)

def maxPrompt : Int := max 1 (trimming.contextWindowTokens - trimming.reservedOutput)

/-- `max(scores)`, or zero without any. -/
def highest : List S → S
  | [] => 0
  | score :: scores => scores.foldl (fun best score => if best < score then score else best) score

def groupKey (group : List Nat) : S × Nat :=
  (highest (group.map fun mid => (trimming.priorityScores mid).getD 0), group.foldl max 0)

/-- Two keys are compared as tuples are. -/
def keyLt (key other : S × Nat) : Bool :=
  if key.1 == other.1 then key.2 < other.2 else key.1 < other.1

/-- `min(groups, key=...)`. -/
def lowest : List (List Nat) → Option (List Nat)
  | [] => none
  | group :: groups =>
      some (groups.foldl (fun best group =>
        if keyLt (trimming.groupKey group) (trimming.groupKey best) then group else best) group)

theorem mem_of_lowest {groups : List (List Nat)} {group : List Nat}
    (h : trimming.lowest groups = some group) : group ∈ groups := by
  have hfold : ∀ (rest : List (List Nat)) (first : List Nat),
      rest.foldl (fun best group =>
        if keyLt (trimming.groupKey group) (trimming.groupKey best) then group else best) first ∈
      first :: rest := by
    intro rest
    induction rest with
    | nil => exact fun first => List.mem_singleton_self first
    | cons next rest ih =>
        intro first
        rw [List.foldl_cons]
        split
        · exact List.mem_cons_of_mem _ (ih next)
        · obtain hhere | hthere := List.mem_cons.mp (ih first)
          · rw [hhere]
            exact List.mem_cons_self
          · exact List.mem_cons_of_mem _ (List.mem_cons_of_mem _ hthere)
  cases groups with
  | nil => cases h
  | cons first rest =>
      obtain rfl := Option.some.inj h
      exact hfold rest first

variable [FiniteFloat F] (str : Json Str F → Str) (messages : List (Obj F))

/-- The groups that may be dropped. -/
def unprotected {messages : List (Obj F)} (selection : Selection messages) : List (List Nat) :=
  selection.groups.filter fun group => ¬ ∃ mid ∈ group, (mid : Int) ∈ trimming.protectedIds

def prompt {messages : List (Obj F)} (selection : Selection messages) : List (Obj F) :=
  trimming.buildMessages (historyFromIds messages selection.ids)

/-- The group that is dropped next, if one is. -/
def nextDropped {messages : List (Obj F)} (selection : Selection messages) :
    Option (List Nat) :=
  if trimming.maxPrompt < (trimming.estimate (trimming.prompt selection)).1 ∧
      selection.ids ≠ [] then
    trimming.lowest (trimming.unprotected selection)
  else none

end Trimming

/-- What is selected after a group is dropped. -/
def Selection.without [FiniteFloat F] (str : Json Str F → Str) {messages : List (Obj F)}
    (selection : Selection messages) (dropped : List Nat) : Selection messages :=
  select str messages ((selection.ids.filter (· ∉ dropped)).map Int.ofNat)

def Selection.users {messages : List (Obj F)} (selection : Selection messages) : Nat :=
  selection.ids.countP (isUser messages)

section Trim

variable [FiniteFloat F] {str : Json Str F → Str} {messages : List (Obj F)}

namespace Selection

variable {selection : Selection messages} {dropped : List Nat}

/-- No user message comes back after its group is dropped. -/
theorem mem_of_user_without {mid : Nat} (huser : isUser messages mid = true)
    (h : mid ∈ (selection.without str dropped).ids) : mid ∈ selection.ids ∧ mid ∉ dropped := by
  have hselected := (mem_canonicalIds.mp h).1
  rw [isUser_selectedIds huser, mem_validIds, List.mem_map] at hselected
  obtain ⟨⟨id, hid, hcast⟩, -⟩ := hselected
  obtain rfl := Int.ofNat.inj hcast
  rw [List.mem_filter, decide_eq_true_eq] at hid
  exact hid

theorem users_without_lt (h : dropped ∈ selection.groups) :
    (selection.without str dropped).users < selection.users := by
  obtain ⟨first, hfirst, huser, -⟩ := exists_user h
  have hnodup : ((selection.without str dropped).ids.filter (isUser messages)).Nodup :=
    ((selection.without str dropped).sorted.imp fun hlt => Nat.ne_of_lt hlt).filter _
  have hkept : (selection.without str dropped).ids.filter (isUser messages) ⊆
      (selection.ids.filter (isUser messages)).filter (· ∉ dropped) := by
    intro mid hmid
    rw [List.mem_filter] at hmid
    obtain ⟨hin, hout⟩ := mem_of_user_without hmid.2 hmid.1
    exact List.mem_filter.mpr ⟨List.mem_filter.mpr ⟨hin, hmid.2⟩, decide_eq_true hout⟩
  have hfewer : ((selection.ids.filter (isUser messages)).filter (· ∉ dropped)).length <
      (selection.ids.filter (isUser messages)).length := by
    rw [List.length_filter_lt_length_iff_exists]
    exact ⟨first, List.mem_filter.mpr ⟨mem_of_mem_group h hfirst, huser⟩, by simpa using hfirst⟩
  rw [users, users, List.countP_eq_length_filter, List.countP_eq_length_filter]
  exact Nat.lt_of_le_of_lt (hnodup.subperm hkept).length_le hfewer

/-- What is not in the dropped group stays, with its user message. -/
theorem mem_without {mid : Nat} (h : dropped ∈ selection.groups) (hmid : mid ∈ selection.ids)
    (hout : mid ∉ dropped) : mid ∈ (selection.without str dropped).ids := by
  rw [← selection.flatten_groups] at hmid
  obtain ⟨group, hgroup, hmid⟩ := List.mem_flatten.mp hmid
  have hvalid : ∀ other ∈ group, other ∈ validIds messages
      ((selection.ids.filter (· ∉ dropped)).map Int.ofNat) := by
    intro other hother
    have hin := mem_of_mem_group hgroup hother
    refine mem_validIds.mpr ⟨List.mem_map_of_mem (List.mem_filter.mpr ⟨hin, ?_⟩),
      selection.inRange other hin⟩
    rw [decide_eq_true_eq]
    exact fun hdropped => hout (group_unique hgroup h hother hdropped ▸ hmid)
  obtain ⟨first, hfirst, huser, hle⟩ := exists_user hgroup
  exact mem_canonicalIds.mpr
    ⟨subset_saturate _ _ (hvalid mid hmid), first, hvalid first hfirst, hle mid hmid, huser⟩

end Selection

namespace Trimming

variable {S : Type} [Zero S] [BEq S] [LT S] [DecidableLT S] (trimming : Trimming F S)

theorem nextDropped_some {selection : Selection messages} {dropped : List Nat}
    (h : trimming.nextDropped selection = some dropped) :
    dropped ∈ selection.groups ∧ ∀ mid ∈ dropped, (mid : Int) ∉ trimming.protectedIds := by
  rw [nextDropped] at h
  split at h
  · have hmem := trimming.mem_of_lowest h
    rw [unprotected, List.mem_filter, decide_eq_true_eq] at hmem
    exact ⟨hmem.1, fun mid hmid hprotected => hmem.2 ⟨mid, hmid, hprotected⟩⟩
  · cases h

theorem nextDropped_none {selection : Selection messages}
    (h : trimming.nextDropped selection = none) :
    (trimming.estimate (trimming.prompt selection)).1 ≤ trimming.maxPrompt ∨
      ∀ group ∈ selection.groups, ∃ mid ∈ group, (mid : Int) ∈ trimming.protectedIds := by
  by_cases hfits : (trimming.estimate (trimming.prompt selection)).1 ≤ trimming.maxPrompt
  · exact Or.inl hfits
  · refine Or.inr fun group hgroup => ?_
    have hsome : selection.ids ≠ [] := by
      intro hnil
      obtain ⟨first, hfirst, -⟩ := Selection.exists_user hgroup
      have hmem := Selection.mem_of_mem_group hgroup hfirst
      rw [hnil] at hmem
      cases hmem
    rw [nextDropped, if_pos ⟨by omega, hsome⟩] at h
    by_contra hnone
    have hmem : group ∈ trimming.unprotected selection :=
      List.mem_filter.mpr ⟨hgroup, decide_eq_true hnone⟩
    cases hgroups : trimming.unprotected selection with
    | nil =>
        rw [hgroups] at hmem
        cases hmem
    | cons first rest =>
        rw [hgroups] at h
        cases h

def warningText (dropped : List Nat) : Str :=
  "dropped turn messages [".toList ++
    List.intercalate ", ".toList (dropped.map (Nat.toDigits 10)) ++ "] to fit budget".toList

def outcome (selection : Selection messages) (warnings : List Str) : TrimOutcome F where
  history := historyFromIds messages selection.ids
  includedIds := selection.ids
  estimatedTokens := (trimming.estimate (trimming.prompt selection)).1
  maxPromptTokens := trimming.maxPrompt
  source := (trimming.estimate (trimming.prompt selection)).2
  warnings := warnings

variable (str)

/-- The loop of `trim`. -/
def trimLoop (selection : Selection messages) (warnings : List Str) :
    List (Obj F) × TrimOutcome F :=
  match _hnext : trimming.nextDropped selection with
  | none => (trimming.prompt selection, trimming.outcome selection warnings)
  | some dropped => trimLoop (selection.without str dropped) (warnings ++ [warningText dropped])
termination_by selection.users
decreasing_by exact Selection.users_without_lt (trimming.nextDropped_some _hnext).1

/-- `HistoryTrimmer.trim`. -/
def trim (messages : List (Obj F)) (ids : List Int) : List (Obj F) × TrimOutcome F :=
  trimming.trimLoop str (select str messages ids) []

variable {str}

/-- The loop ends with a selection that nothing is dropped from, after at most one group for
each user message, and keeps what is protected. -/
theorem trimLoop_ends (selection : Selection messages) (warnings : List Str)
    (hselect : ∃ ids, selection = select str messages ids) :
    ∃ ids more, trimming.trimLoop str selection warnings =
        (trimming.prompt (select str messages ids),
          trimming.outcome (select str messages ids) (warnings ++ more)) ∧
      trimming.nextDropped (select str messages ids) = none ∧
      more.length ≤ selection.users ∧
      ∀ mid ∈ selection.ids, (mid : Int) ∈ trimming.protectedIds →
        mid ∈ (select str messages ids).ids := by
  fun_induction trimLoop str trimming selection warnings with
  | case1 selection warnings hnext =>
      obtain ⟨ids, rfl⟩ := hselect
      refine ⟨ids, [], ?_, hnext, Nat.zero_le _, fun mid hmid _ => hmid⟩
      rw [List.append_nil]
  | case2 selection warnings dropped hnext ih =>
      obtain ⟨ids, more, hends, hnone, hlength, hkeeps⟩ := ih ⟨_, rfl⟩
      obtain ⟨hgroup, hprotected⟩ := trimming.nextDropped_some hnext
      have hlt := @Selection.users_without_lt F _ str messages selection dropped hgroup
      refine ⟨ids, warningText dropped :: more, ?_, hnone, ?_, ?_⟩
      · rw [hends, List.append_assoc, List.singleton_append]
      · rw [List.length_cons]
        omega
      · intro mid hmid hkeep
        exact hkeeps mid (Selection.mem_without hgroup hmid fun hin => hprotected mid hin hkeep)
          hkeep

end Trimming

/-! ## Tool exchanges of the history -/

theorem callIds_clean (message : Obj F) : callIds str (clean message) = callIds str message := by
  rw [callIds, callIds, hasRole_clean, toolCalls, toolCalls, lookup_clean (by decide)]

theorem checkMessage_clean (state : Finset Str × List Str) (message : Obj F) :
    checkMessage str state (clean message) = checkMessage str state message := by
  rw [checkMessage, checkMessage, callIds_clean, hasRole_clean, answeredId, answeredId,
    lookup_clean (by decide)]

/-- A message without a role takes no part in a tool exchange. -/
theorem checkMessage_of_no_role {message : Obj F} (state : Finset Str × List Str)
    (h : ¬ ((clean message).lookup "role".toList).any truthy = true) :
    checkMessage str state message = state := by
  have hrole (name : String) (hname : name.toList ≠ []) : hasRole name message = false := by
    rw [Bool.eq_false_iff]
    intro hrole
    rw [lookup_clean (by decide)] at h
    unfold hasRole at hrole
    split at hrole
    · next role hlookup =>
        rw [hlookup, Option.any_some, truthy, of_decide_eq_true hrole] at h
        exact h (by simpa using hname)
    · cases hrole
  have hcalls : callIds str message = [] := by
    rw [callIds, hrole "assistant" (by decide), if_neg Bool.false_ne_true]
  rw [checkMessage, hcalls, hrole "tool" (by decide), if_neg Bool.false_ne_true, List.toFinset_nil,
    Finset.union_empty]

variable (str messages)

/-- The message at a place, where there is one. -/
def checkAt (state : Finset Str × List Str) (mid : Nat) : Finset Str × List Str :=
  match messages[mid]? with
  | some message => checkMessage str state message
  | none => state

variable {messages}

theorem foldl_historyFromIds (ids : List Nat) (state : Finset Str × List Str) :
    (historyFromIds messages ids).foldl (checkMessage str) state =
      ids.foldl (checkAt str messages) state := by
  induction ids generalizing state with
  | nil => rfl
  | cons mid ids ih =>
      rw [historyFromIds, List.foldl_cons, checkAt]
      cases hmessage : messages[mid]? with
      | none =>
          have hentry : historyEntry messages mid = none := by rw [historyEntry, hmessage]; rfl
          rw [List.filterMap_cons_none hentry]
          exact ih state
      | some message =>
          by_cases hrole : ((clean message).lookup "role".toList).any truthy = true
          · have hentry : historyEntry messages mid = some (clean message) := by
              rw [historyEntry, hmessage, Option.map_some, Option.filter_some, if_pos hrole]
            rw [List.filterMap_cons_some hentry, List.foldl_cons, checkMessage_clean]
            exact ih _
          · have hentry : historyEntry messages mid = none := by
              rw [historyEntry, hmessage, Option.map_some, Option.filter_some, if_neg hrole]
            rw [List.filterMap_cons_none hentry]
            dsimp only
            rw [checkMessage_of_no_role state hrole]
            exact ih state

variable (messages)

/-- Ids are unique, every call is answered exactly once, after its message and before the next
user message, and every tool message answers a call. -/
structure WellFormedSession : Prop where
  unique : ∀ i k callId, Calls str messages i callId → Calls str messages k callId → i = k
  answered : ∀ i callId, Calls str messages i callId →
    ∃ j, Results str messages j callId ∧ i < j ∧
      ∀ k, i < k → k < j → isUser messages k = false
  once : ∀ j k callId, Results str messages j callId → Results str messages k callId → j = k
  answers : ∀ (j : Nat) message, messages[j]? = some message → hasRole "tool" message = true →
    ∃ callId, resultId str message = some callId ∧ ∃ i, Calls str messages i callId

/-- The open calls are the ones that the ids still have to answer, and every exchange of the
ids is whole. -/
structure Paired (openCalls : Finset Str) (ids : List Nat) : Prop where
  sorted : ids.Pairwise (· < ·)
  opened : ∀ callId ∈ openCalls, ∃ j ∈ ids, Results str messages j callId
  answered : ∀ i ∈ ids, ∀ callId, Calls str messages i callId →
    ∃ j ∈ ids, i < j ∧ Results str messages j callId
  answers : ∀ j ∈ ids, ∀ callId, Results str messages j callId →
    callId ∈ openCalls ∨ ∃ i ∈ ids, i < j ∧ Calls str messages i callId

variable {str messages}

theorem Paired.skip {openCalls : Finset Str} {mid : Nat} {ids : List Nat}
    (h : Paired str messages openCalls (mid :: ids)) {next : Finset Str}
    (hopened : ∀ callId ∈ next, ∃ j ∈ ids, Results str messages j callId)
    (hkept : ∀ j ∈ ids, ∀ callId, Results str messages j callId →
      callId ∈ openCalls ∨ Calls str messages mid callId → callId ∈ next) :
    Paired str messages next ids where
  sorted := (List.pairwise_cons.mp h.sorted).2
  opened := hopened
  answered := by
    intro i hi callId hcall
    obtain ⟨j, hj, hlt, hresult⟩ := h.answered i (List.mem_cons_of_mem _ hi) callId hcall
    obtain rfl | hj := List.mem_cons.mp hj
    · exact absurd (List.rel_of_pairwise_cons h.sorted hi) (by omega)
    · exact ⟨j, hj, hlt, hresult⟩
  answers := by
    intro j hj callId hresult
    obtain hopen | ⟨i, hi, hlt, hcall⟩ := h.answers j (List.mem_cons_of_mem _ hj) callId hresult
    · exact Or.inl (hkept j hj callId hresult (Or.inl hopen))
    · obtain rfl | hi := List.mem_cons.mp hi
      · exact Or.inl (hkept j hj callId hresult (Or.inr hcall))
      · exact Or.inr ⟨i, hi, hlt, hcall⟩

theorem Paired.ends {openCalls : Finset Str} (h : Paired str messages openCalls []) :
    openCalls = ∅ := by
  rw [Finset.eq_empty_iff_forall_notMem]
  intro callId hopen
  obtain ⟨j, hj, -⟩ := h.opened callId hopen
  cases hj

/-- A tool message answers an open call, which is closed by it. -/
theorem Paired.check_tool (hsession : WellFormedSession str messages) {openCalls : Finset Str}
    {mid : Nat} {ids : List Nat} (h : Paired str messages openCalls (mid :: ids))
    {message : Obj F} (hmessage : messages[mid]? = some message)
    (hrole : hasRole "tool" message = true) :
    ∃ next, checkMessage str (openCalls, []) message = (next, []) ∧
      Paired str messages next ids := by
  obtain ⟨callId, hid, -⟩ := hsession.answers mid message hmessage hrole
  have hresult : Results str messages mid callId := ⟨message, hmessage, hid⟩
  have hcalls : callIds str message = [] := by
    by_contra hsome
    obtain ⟨other, rest, hother⟩ := List.exists_cons_of_ne_nil hsome
    have hassistant : hasRole "assistant" message = true :=
      hasRole_of_callIds (hother ▸ List.mem_cons_self : other ∈ callIds str message)
    exact absurd (eq_of_hasRole hassistant hrole) (by decide)
  have hanswered : answeredId str message = callId := by
    rw [resultId, if_pos hrole, textOf, Option.map_eq_some_iff] at hid
    obtain ⟨value, hvalue, rfl⟩ := hid
    rw [answeredId, (Option.filter_eq_some_iff.mp hvalue).1]
    rfl
  have hopen : callId ∈ openCalls := by
    obtain hopen | ⟨i, hi, hlt, -⟩ := h.answers mid List.mem_cons_self callId hresult
    · exact hopen
    · obtain rfl | hi := List.mem_cons.mp hi
      · omega
      · exact absurd (List.rel_of_pairwise_cons h.sorted hi) (by omega)
  refine ⟨openCalls.erase callId, ?_, h.skip ?_ ?_⟩
  · rw [checkMessage, hcalls, List.toFinset_nil, Finset.union_empty, if_pos hrole, hanswered,
      if_pos hopen]
  · intro other hother
    obtain ⟨hne, hother⟩ := Finset.mem_erase.mp hother
    obtain ⟨j, hj, hj'⟩ := h.opened other hother
    obtain rfl | hj := List.mem_cons.mp hj
    · obtain ⟨found, hfound, hfoundId⟩ := hj'
      obtain rfl := Option.some.inj (hmessage.symm.trans hfound)
      exact absurd (Option.some.inj (hfoundId.symm.trans hid)) hne
    · exact ⟨j, hj, hj'⟩
  · intro j hj other hother hwhy
    have hlt := List.rel_of_pairwise_cons h.sorted hj
    have hne : other ≠ callId := by
      rintro rfl
      have hsame := hsession.once j mid other hother hresult
      omega
    obtain hwhy | ⟨found, hfound, hcall⟩ := hwhy
    · exact Finset.mem_erase.mpr ⟨hne, hwhy⟩
    · obtain rfl := Option.some.inj (hmessage.symm.trans hfound)
      rw [hcalls] at hcall
      cases hcall

/-- Any other message opens the calls that it makes. -/
theorem Paired.check_other {openCalls : Finset Str} {mid : Nat} {ids : List Nat}
    (h : Paired str messages openCalls (mid :: ids)) {message : Obj F}
    (hmessage : messages[mid]? = some message) (hrole : ¬ hasRole "tool" message = true) :
    ∃ next, checkMessage str (openCalls, []) message = (next, []) ∧
      Paired str messages next ids := by
  refine ⟨openCalls ∪ (callIds str message).toFinset, ?_, h.skip ?_ ?_⟩
  · rw [checkMessage, if_neg hrole]
  · intro callId hopen
    obtain hopen | hcall := Finset.mem_union.mp hopen
    · obtain ⟨j, hj, hresult⟩ := h.opened callId hopen
      obtain rfl | hj := List.mem_cons.mp hj
      · obtain ⟨found, hfound, hid⟩ := hresult
        obtain rfl := Option.some.inj (hmessage.symm.trans hfound)
        exact absurd (hasRole_of_resultId hid) hrole
      · exact ⟨j, hj, hresult⟩
    · obtain ⟨j, hj, hlt, hresult⟩ := h.answered mid List.mem_cons_self callId
        ⟨message, hmessage, List.mem_toFinset.mp hcall⟩
      obtain rfl | hj := List.mem_cons.mp hj
      · omega
      · exact ⟨j, hj, hresult⟩
  · intro j hj callId hresult hwhy
    obtain hopen | ⟨found, hfound, hcall⟩ := hwhy
    · exact Finset.mem_union_left _ hopen
    · obtain rfl := Option.some.inj (hmessage.symm.trans hfound)
      exact Finset.mem_union_right _ (List.mem_toFinset.mpr hcall)

theorem Paired.foldl_checkAt (hsession : WellFormedSession str messages) {openCalls : Finset Str}
    {ids : List Nat} (h : Paired str messages openCalls ids) :
    ids.foldl (checkAt str messages) (openCalls, []) = (∅, []) := by
  induction ids generalizing openCalls with
  | nil => rw [List.foldl_nil, h.ends]
  | cons mid ids ih =>
      rw [List.foldl_cons, checkAt]
      cases hmessage : messages[mid]? with
      | none =>
          have habsent : ∀ message, ¬ messages[mid]? = some message := by simp [hmessage]
          refine ih (h.skip ?_ ?_)
          · intro callId hopen
            obtain ⟨j, hj, hresult⟩ := h.opened callId hopen
            obtain rfl | hj := List.mem_cons.mp hj
            · obtain ⟨found, hfound, -⟩ := hresult
              exact absurd hfound (habsent found)
            · exact ⟨j, hj, hresult⟩
          · intro j hj callId hresult hwhy
            obtain hopen | ⟨found, hfound, -⟩ := hwhy
            · exact hopen
            · exact absurd hfound (habsent found)
      | some message =>
          by_cases hrole : hasRole "tool" message = true
          · obtain ⟨next, hcheck, hpaired⟩ := h.check_tool hsession hmessage hrole
            dsimp only
            rw [hcheck]
            exact ih hpaired
          · obtain ⟨next, hcheck, hpaired⟩ := h.check_other hmessage hrole
            dsimp only
            rw [hcheck]
            exact ih hpaired

/-- The canonical ids of a well-formed session hold whole exchanges. -/
theorem paired_canonicalIds (hsession : WellFormedSession str messages) (ids : List Int) :
    Paired str messages ∅ (canonicalIds str messages ids) where
  sorted := (select str messages ids).sorted
  opened := by
    intro callId hopen
    cases hopen
  answered := by
    intro i hi callId hcall
    obtain ⟨hselected, first, hfirst, hle, huser⟩ := mem_canonicalIds.mp hi
    obtain ⟨j, hresult, hlt, -⟩ := hsession.answered i callId hcall
    obtain ⟨parent, hparent⟩ := Option.isSome_iff_exists.mp (parent_of_calls hcall)
    obtain rfl := hsession.unique parent i callId (calls_of_parent hparent) hcall
    exact ⟨j, mem_canonicalIds.mpr ⟨(selectedIds_closed hparent hresult).mp hselected, first,
      hfirst, by omega, huser⟩, hlt, hresult⟩
  answers := by
    intro j hj callId hresult
    obtain ⟨hselected, first, hfirst, hle, huser⟩ := mem_canonicalIds.mp hj
    obtain ⟨message, hmessage, hid⟩ := hresult
    obtain ⟨other, hother, i, hcall⟩ :=
      hsession.answers j message hmessage (hasRole_of_resultId hid)
    obtain rfl := Option.some.inj (hid.symm.trans hother)
    obtain ⟨k, hk, hlt, hnoUser⟩ := hsession.answered i callId hcall
    obtain rfl := hsession.once k j callId hk ⟨message, hmessage, hid⟩
    obtain ⟨parent, hparent⟩ := Option.isSome_iff_exists.mp (parent_of_calls hcall)
    obtain rfl := hsession.unique parent i callId (calls_of_parent hparent) hcall
    -- the user message of the result comes before the call
    have hbefore : first ≤ parent := by
      by_contra hafter
      by_cases hlast : first = k
      · rw [hlast, hk.not_isUser] at huser
        cases huser
      · rw [hnoUser first (by omega) (by omega)] at huser
        cases huser
    exact Or.inr ⟨parent, mem_canonicalIds.mpr ⟨(selectedIds_closed hparent hk).mpr hselected,
      first, hfirst, hbefore, huser⟩, hlt, hcall⟩

theorem structuralErrors_canonicalIds (listText : List Str → Str)
    (hsession : WellFormedSession str messages) (ids : List Int) :
    structuralErrors str listText (historyFromIds messages (canonicalIds str messages ids)) =
      [] := by
  rw [structuralErrors, foldl_historyFromIds,
    (paired_canonicalIds hsession ids).foldl_checkAt hsession]
  rfl

/-- `trim` drops at most one group for each user message of the canonical ids, keeps what is
protected of them, and goes on until the estimate fits or every group holds something
protected; the history of a well-formed session has whole tool exchanges. -/
theorem trim_keeps {S : Type} [Zero S] [BEq S] [LT S] [DecidableLT S]
    (trimming : Trimming F S) (str : Json Str F → Str) (listText : List Str → Str)
    (messages : List (Obj F)) (ids : List Int) :
    let outcome := (trimming.trim str messages ids).2
    outcome.warnings.length ≤ (canonicalIds str messages ids).countP (isUser messages) ∧
      (∀ mid ∈ canonicalIds str messages ids, (mid : Int) ∈ trimming.protectedIds →
        mid ∈ outcome.includedIds) ∧
      (outcome.estimatedTokens ≤ outcome.maxPromptTokens ∨
        ∀ group ∈ turnGroups messages [] outcome.includedIds,
          ∃ mid ∈ group, (mid : Int) ∈ trimming.protectedIds) ∧
      (WellFormedSession str messages →
        structuralErrors str listText outcome.history = []) := by
  obtain ⟨final, more, hends, hnone, hlength, hkeeps⟩ :=
    trimming.trimLoop_ends (select str messages ids) [] ⟨ids, rfl⟩
  rw [Trimming.trim, hends]
  exact ⟨hlength, hkeeps, trimming.nextDropped_none hnone,
    fun hsession => structuralErrors_canonicalIds listText hsession final⟩

end Trim

/-! One turn with a tool exchange, which is too long for the prompt, and a question after it. -/

open Sessions (question clockCall clockResult jsonText) in
def clockMessages : List (Obj Empty) := [question, clockCall, clockResult, question]

open Sessions (jsonText)

theorem calls_clock {i : Nat} {callId : Str} (h : Calls jsonText clockMessages i callId) :
    i = 1 ∧ callId = "call_1".toList := by
  obtain ⟨message, hmessage, hcall⟩ := h
  rcases i with _ | _ | _ | _ | i
  · obtain rfl := Option.some.inj hmessage
    cases hcall
  · obtain rfl := Option.some.inj hmessage
    exact ⟨rfl, List.mem_singleton.mp hcall⟩
  · obtain rfl := Option.some.inj hmessage
    cases hcall
  · obtain rfl := Option.some.inj hmessage
    cases hcall
  · cases hmessage

theorem results_clock {j : Nat} {callId : Str} (h : Results jsonText clockMessages j callId) :
    j = 2 ∧ callId = "call_1".toList := by
  obtain ⟨message, hmessage, hresult⟩ := h
  rcases j with _ | _ | _ | _ | j
  · obtain rfl := Option.some.inj hmessage
    cases hresult
  · obtain rfl := Option.some.inj hmessage
    cases hresult
  · obtain rfl := Option.some.inj hmessage
    exact ⟨rfl, (Option.some.inj hresult).symm⟩
  · obtain rfl := Option.some.inj hmessage
    cases hresult
  · cases hmessage

theorem clockMessages_wellFormed : WellFormedSession jsonText clockMessages where
  unique := fun i k callId hi hk => (calls_clock hi).1.trans (calls_clock hk).1.symm
  answered := by
    intro i callId h
    obtain ⟨rfl, rfl⟩ := calls_clock h
    refine ⟨2, ⟨_, rfl, rfl⟩, by omega, fun k hlt hgt => ?_⟩
    omega
  once := fun j k callId hj hk => (results_clock hj).1.trans (results_clock hk).1.symm
  answers := by
    intro j message hmessage hrole
    rcases j with _ | _ | _ | _ | j
    · obtain rfl := Option.some.inj hmessage
      cases hrole
    · obtain rfl := Option.some.inj hmessage
      cases hrole
    · obtain rfl := Option.some.inj hmessage
      exact ⟨"call_1".toList, rfl, 1, _, rfl, List.mem_singleton_self _⟩
    · obtain rfl := Option.some.inj hmessage
      cases hrole
    · cases hmessage

/-- Each message counts a hundred tokens. -/
def countingMessages : Trimming Empty Nat where
  estimate := fun prompt => (100 * prompt.length, "test".toList)
  contextWindowTokens := 350
  reservedOutput := 50
  buildMessages := fun history => history
  protectedIds := ∅
  priorityScores := fun _ => none

theorem trim_keeps_clock :
    structuralErrors jsonText List.flatten
      (countingMessages.trim jsonText clockMessages [0, 1, 2, 3]).2.history = [] :=
  (trim_keeps countingMessages jsonText List.flatten clockMessages [0, 1, 2, 3]).2.2.2
    clockMessages_wellFormed

end Context
end CodeCub

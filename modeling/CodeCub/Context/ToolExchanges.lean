import Mathlib.Data.Finset.Sort
import Mathlib.Data.List.Lex
import CodeCub.Machine.Saturation
import CodeCub.Python.OrderedDict
import CodeCub.Sessions.History

/-!
# Whole tool exchanges

`canonical_ids` and `_turn_groups` of `pico/context_engine/history_trimmer.py`: the selected
messages of a session are completed to whole tool exchanges, begin with a user message, and
fall into turns.
-/

namespace CodeCub
namespace Context

open Python Saturation
open Sessions (Obj hasRole callIds resultId)

variable {F : Type}

/-! ## Messages by their places -/

/-- `messages[mid].get("role") == "user"`. -/
def isUser (messages : List (Obj F)) (mid : Nat) : Bool :=
  messages[mid]?.any (hasRole "user")

theorem eq_of_hasRole {name other : String} {message : Obj F} (h : hasRole name message = true)
    (hother : hasRole other message = true) : name.toList = other.toList := by
  unfold hasRole at h hother
  split at h
  · next role hrole =>
      rw [hrole] at hother
      exact (of_decide_eq_true h).symm.trans (of_decide_eq_true hother)
  · cases h

theorem isUser_eq_true {messages : List (Obj F)} {mid : Nat} (h : isUser messages mid = true) :
    ∃ message, messages[mid]? = some message ∧ hasRole "user" message = true := by
  rw [isUser, Option.any_eq_true_iff_get] at h
  obtain ⟨hsome, hrole⟩ := h
  exact ⟨_, (Option.some_get hsome).symm, hrole⟩

def validIds (messages : List (Obj F)) (ids : List Int) : Finset Nat :=
  ((ids.filter fun mid => 0 ≤ mid ∧ mid < (messages.length : Int)).map Int.toNat).toFinset

theorem mem_validIds {messages : List (Obj F)} {ids : List Int} {mid : Nat} :
    mid ∈ validIds messages ids ↔ (mid : Int) ∈ ids ∧ mid < messages.length := by
  rw [validIds, List.mem_toFinset, List.mem_map]
  constructor
  · intro h
    obtain ⟨id, hid, rfl⟩ := h
    rw [List.mem_filter, decide_eq_true_eq] at hid
    rw [Int.toNat_of_nonneg hid.2.1]
    exact ⟨hid.1, by omega⟩
  · intro h
    exact ⟨mid, List.mem_filter.mpr ⟨h.1, by simpa using h.2⟩, Int.toNat_natCast mid⟩

section Exchanges

variable [FiniteFloat F] (str : Json Str F → Str)

/-- The message at the place makes the call. -/
def Calls (messages : List (Obj F)) (mid : Nat) (callId : Str) : Prop :=
  ∃ message, messages[mid]? = some message ∧ callId ∈ callIds str message

/-- The message at the place is a result of the call. -/
def Results (messages : List (Obj F)) (mid : Nat) (callId : Str) : Prop :=
  ∃ message, messages[mid]? = some message ∧ resultId str message = some callId

variable {str}

theorem hasRole_of_callIds {message : Obj F} {callId : Str} (h : callId ∈ callIds str message) :
    hasRole "assistant" message = true := by
  rw [callIds] at h
  split at h
  · next hrole => exact hrole
  · cases h

theorem hasRole_of_resultId {message : Obj F} {callId : Str}
    (h : resultId str message = some callId) : hasRole "tool" message = true := by
  rw [resultId] at h
  split at h
  · next hrole => exact hrole
  · cases h

theorem Calls.not_isUser {messages : List (Obj F)} {mid : Nat} {callId : Str}
    (h : Calls str messages mid callId) : isUser messages mid = false := by
  obtain ⟨message, hmessage, hcall⟩ := h
  rw [isUser, hmessage, Option.any_some, Bool.eq_false_iff]
  intro huser
  exact absurd (eq_of_hasRole (hasRole_of_callIds hcall) huser) (by decide)

theorem Results.not_isUser {messages : List (Obj F)} {mid : Nat} {callId : Str}
    (h : Results str messages mid callId) : isUser messages mid = false := by
  obtain ⟨message, hmessage, hresult⟩ := h
  rw [isUser, hmessage, Option.any_some, Bool.eq_false_iff]
  intro huser
  exact absurd (eq_of_hasRole (hasRole_of_resultId hresult) huser) (by decide)

variable (str)

/-- `tool_parent_by_call` and `tool_result_by_call`. -/
structure Exchanges where
  parents : OrderedDict Str Nat := ∅
  results : OrderedDict Str (List Nat) := ∅

namespace Exchanges

/-- `tool_result_by_call.get(call_id, [])`. -/
def resultIds (exchanges : Exchanges) (callId : Str) : List Nat :=
  (exchanges.results.get callId).getD []

def note (exchanges : Exchanges) (entry : Obj F × Nat) : Exchanges where
  parents := (callIds str entry.1).foldl (fun parents callId => parents.set callId entry.2)
    exchanges.parents
  results :=
    match resultId str entry.1 with
    | some callId => exchanges.results.set callId (exchanges.resultIds callId ++ [entry.2])
    | none => exchanges.results

/-- The results of a call whose parent is selected. -/
def addResults (exchanges : Exchanges) (selected : Finset Nat) (entry : Str × Nat) :
    Finset Nat :=
  if entry.2 ∈ selected then selected ∪ (exchanges.resultIds entry.1).toFinset else selected

/-- The parent of a call with a result that is selected. -/
def addParent (exchanges : Exchanges) (selected : Finset Nat) (entry : Str × Nat) :
    Finset Nat :=
  if (∃ rid ∈ exchanges.resultIds entry.1, rid ∈ selected) ∧ entry.2 ∉ selected then
    insert entry.2 selected
  else selected

/-- One entry of the pass over `tool_parent_by_call`. -/
def closeCall (exchanges : Exchanges) (selected : Finset Nat) (entry : Str × Nat) :
    Finset Nat :=
  exchanges.addParent (exchanges.addResults selected entry) entry

end Exchanges

def exchangesOf (messages : List (Obj F)) : Exchanges :=
  messages.zipIdx.foldl (Exchanges.note str) {}

theorem exchangesOf_concat (messages : List (Obj F)) (message : Obj F) :
    exchangesOf str (messages ++ [message]) =
      (exchangesOf str messages).note str (message, messages.length) := by
  rw [exchangesOf, List.zipIdx_append, List.foldl_append, exchangesOf]
  simp

variable {str}

theorem get_foldl_set_const {callIds : List Str} {parents : OrderedDict Str Nat} {mid : Nat}
    {callId : Str} :
    (callIds.foldl (fun parents callId => parents.set callId mid) parents).get callId =
      if callId ∈ callIds then some mid else parents.get callId := by
  induction callIds generalizing parents with
  | nil => rfl
  | cons first rest ih =>
      rw [List.foldl_cons, ih, OrderedDict.get_set]
      by_cases hrest : callId ∈ rest
      · rw [if_pos hrest, if_pos (List.mem_cons_of_mem _ hrest)]
      · by_cases hfirst : callId = first
        · rw [if_neg hrest, if_pos hfirst, if_pos (hfirst ▸ List.mem_cons_self)]
        · rw [if_neg hrest, if_neg hfirst, if_neg (by simp [hfirst, hrest])]

/-- The parent of a call makes it. -/
theorem calls_of_parent {messages : List (Obj F)} {callId : Str} {mid : Nat}
    (h : (exchangesOf str messages).parents.get callId = some mid) :
    Calls str messages mid callId := by
  induction messages using List.reverseRecOn with
  | nil => cases h
  | append_singleton messages message ih =>
      rw [exchangesOf_concat, Exchanges.note, get_foldl_set_const] at h
      split at h
      · next hcall =>
          obtain rfl := Option.some.inj h
          exact ⟨message, List.getElem?_concat_length, hcall⟩
      · obtain ⟨earlier, hearlier, hcall⟩ := ih h
        have hlt := (List.getElem?_eq_some_iff.mp hearlier).1
        exact ⟨earlier, (List.getElem?_append_left hlt).trans hearlier, hcall⟩

/-- A call that is made has a parent. -/
theorem parent_of_calls {messages : List (Obj F)} {callId : Str} {mid : Nat}
    (h : Calls str messages mid callId) :
    ((exchangesOf str messages).parents.get callId).isSome := by
  induction messages using List.reverseRecOn with
  | nil =>
      obtain ⟨message, hmessage, -⟩ := h
      cases hmessage
  | append_singleton messages message ih =>
      rw [exchangesOf_concat, Exchanges.note, get_foldl_set_const]
      by_cases hcall : callId ∈ callIds str message
      · rw [if_pos hcall]
        rfl
      · rw [if_neg hcall]
        obtain ⟨made, hmade, hcallMade⟩ := h
        rw [List.getElem?_append] at hmade
        split at hmade
        · exact ih ⟨made, hmade, hcallMade⟩
        · rw [List.getElem?_singleton] at hmade
          split at hmade
          · obtain rfl := Option.some.inj hmade
            exact absurd hcallMade hcall
          · cases hmade

/-- The results of a call are all there are. -/
theorem mem_resultIds {messages : List (Obj F)} {callId : Str} {mid : Nat} :
    mid ∈ (exchangesOf str messages).resultIds callId ↔ Results str messages mid callId := by
  induction messages using List.reverseRecOn with
  | nil =>
      constructor
      · intro h
        cases h
      · intro h
        obtain ⟨message, hmessage, -⟩ := h
        cases hmessage
  | append_singleton messages message ih =>
      have hsplit : Results str (messages ++ [message]) mid callId ↔
          Results str messages mid callId ∨
            mid = messages.length ∧ resultId str message = some callId := by
        constructor
        · intro h
          obtain ⟨result, hresult, hid⟩ := h
          rw [List.getElem?_append] at hresult
          split at hresult
          · exact Or.inl ⟨result, hresult, hid⟩
          · next hlt =>
              rw [List.getElem?_singleton] at hresult
              split at hresult
              · next hzero =>
                  obtain rfl := Option.some.inj hresult
                  exact Or.inr ⟨by omega, hid⟩
              · cases hresult
        · intro h
          obtain ⟨result, hresult, hid⟩ | ⟨rfl, hid⟩ := h
          · have hlt := (List.getElem?_eq_some_iff.mp hresult).1
            exact ⟨result, (List.getElem?_append_left hlt).trans hresult, hid⟩
          · exact ⟨message, List.getElem?_concat_length, hid⟩
      rw [hsplit, ← ih, exchangesOf_concat]
      cases hid : resultId str message with
      | none => simp [Exchanges.resultIds, Exchanges.note, hid]
      | some other =>
          rw [Exchanges.resultIds, Exchanges.note]
          simp only [hid, OrderedDict.get_set, Option.some.injEq]
          by_cases hsame : callId = other
          · rw [if_pos hsame, Option.getD_some, List.mem_append, List.mem_singleton, hsame]
            simp
          · rw [if_neg hsame, ← Exchanges.resultIds]
            simp [Ne.symm hsame]

theorem calls_of_mem_parents {messages : List (Obj F)} {entry : Str × Nat}
    (h : entry ∈ (exchangesOf str messages).parents.entries) :
    Calls str messages entry.2 entry.1 :=
  calls_of_parent (OrderedDict.get_of_mem _ h)

/-! ## The closure -/

namespace Exchanges

variable (exchanges : Exchanges)

/-- The places of all parents and results. -/
def places : Finset Nat :=
  (exchanges.parents.entries.flatMap fun entry =>
    entry.2 :: exchanges.resultIds entry.1).toFinset

theorem subset_addResults (selected : Finset Nat) (entry : Str × Nat) :
    selected ⊆ exchanges.addResults selected entry := by
  rw [addResults]
  split
  · exact Finset.subset_union_left
  · exact Finset.Subset.refl _

theorem subset_addParent (selected : Finset Nat) (entry : Str × Nat) :
    selected ⊆ exchanges.addParent selected entry := by
  rw [addParent]
  split
  · exact Finset.subset_insert _ _
  · exact Finset.Subset.refl _

theorem subset_closeCall (selected : Finset Nat) (entry : Str × Nat) :
    selected ⊆ exchanges.closeCall selected entry :=
  (exchanges.subset_addResults selected entry).trans (exchanges.subset_addParent _ entry)

theorem closeCall_subset {entry : Str × Nat} (h : entry ∈ exchanges.parents.entries)
    (selected : Finset Nat) :
    exchanges.closeCall selected entry ⊆ selected ∪ exchanges.places := by
  have hparent : entry.2 ∈ exchanges.places :=
    List.mem_toFinset.mpr (List.mem_flatMap.mpr ⟨entry, h, List.mem_cons_self⟩)
  have hresults : (exchanges.resultIds entry.1).toFinset ⊆ exchanges.places := by
    intro rid hrid
    exact List.mem_toFinset.mpr (List.mem_flatMap.mpr
      ⟨entry, h, List.mem_cons_of_mem _ (List.mem_toFinset.mp hrid)⟩)
  have hfirst : exchanges.addResults selected entry ⊆ selected ∪ exchanges.places := by
    rw [addResults]
    split
    · exact Finset.union_subset_union_right hresults
    · exact Finset.subset_union_left
  rw [closeCall, addParent]
  split
  · exact Finset.insert_subset (Finset.mem_union_right _ hparent) hfirst
  · exact hfirst

/-- One pass over `tool_parent_by_call`. -/
def pass : Pass Nat where
  apply := fun selected => exchanges.parents.entries.foldl exchanges.closeCall selected
  stock := exchanges.places
  subset_apply := fun selected => subset_foldl exchanges.subset_closeCall _ selected
  apply_subset := fun selected =>
    foldl_subset (fun _ h => exchanges.closeCall_subset h) selected

/-- A call that the pass leaves as it is has its parent and its results together. -/
theorem closed_of_closeCall {selected : Finset Nat} {entry : Str × Nat}
    (h : exchanges.closeCall selected entry = selected) {rid : Nat}
    (hrid : rid ∈ exchanges.resultIds entry.1) : entry.2 ∈ selected ↔ rid ∈ selected := by
  have hgrown := exchanges.subset_addParent (exchanges.addResults selected entry) entry
  rw [← closeCall, h] at hgrown
  have hresults : exchanges.addResults selected entry = selected :=
    Finset.Subset.antisymm hgrown (exchanges.subset_addResults selected entry)
  have hparents : exchanges.addParent selected entry = selected := by rwa [closeCall, hresults] at h
  constructor
  · intro hparent
    rw [addResults, if_pos hparent] at hresults
    rw [← hresults]
    exact Finset.mem_union_right _ (List.mem_toFinset.mpr hrid)
  · intro hresult
    by_contra hparent
    rw [addParent, if_pos ⟨⟨rid, hrid, hresult⟩, hparent⟩] at hparents
    exact hparent (hparents ▸ Finset.mem_insert_self _ _)

end Exchanges

variable (str)

/-- `selected` when nothing changes any more. -/
def selectedIds (messages : List (Obj F)) (ids : List Int) : Finset Nat :=
  saturate (exchangesOf str messages).pass (validIds messages ids)

/-- `HistoryTrimmer.canonical_ids`. -/
def canonicalIds (messages : List (Obj F)) (ids : List Int) : List Nat :=
  ((selectedIds str messages ids).sort (· ≤ ·)).dropWhile fun mid => !isUser messages mid

variable {str}

theorem mem_places {messages : List (Obj F)} {mid : Nat}
    (h : mid ∈ (exchangesOf str messages).places) :
    ∃ callId, Calls str messages mid callId ∨ Results str messages mid callId := by
  obtain ⟨entry, hentry, hmid⟩ := List.mem_flatMap.mp (List.mem_toFinset.mp h)
  obtain rfl | hresult := List.mem_cons.mp hmid
  · exact ⟨_, Or.inl (calls_of_mem_parents hentry)⟩
  · exact ⟨_, Or.inr (mem_resultIds.mp hresult)⟩

theorem lt_of_mem_selectedIds {messages : List (Obj F)} {ids : List Int} {mid : Nat}
    (h : mid ∈ selectedIds str messages ids) : mid < messages.length := by
  obtain hvalid | hplace := Finset.mem_union.mp (saturate_subset _ _ h)
  · exact (mem_validIds.mp hvalid).2
  · obtain ⟨callId, ⟨message, hmessage, -⟩ | ⟨message, hmessage, -⟩⟩ := mem_places hplace
    · exact (List.getElem?_eq_some_iff.mp hmessage).1
    · exact (List.getElem?_eq_some_iff.mp hmessage).1

/-- The closure selects no user message. -/
theorem isUser_selectedIds {messages : List (Obj F)} {ids : List Int} {mid : Nat}
    (huser : isUser messages mid = true) :
    mid ∈ selectedIds str messages ids ↔ mid ∈ validIds messages ids := by
  constructor
  · intro h
    obtain hvalid | hplace := Finset.mem_union.mp (saturate_subset _ _ h)
    · exact hvalid
    · obtain ⟨callId, hcall | hresult⟩ := mem_places hplace
      · rw [hcall.not_isUser] at huser
        cases huser
      · rw [hresult.not_isUser] at huser
        cases huser
  · exact fun h => subset_saturate _ _ h

/-- The call's parent is selected together with each of its results. -/
theorem selectedIds_closed {messages : List (Obj F)} {ids : List Int} {callId : Str}
    {parent rid : Nat} (hparent : (exchangesOf str messages).parents.get callId = some parent)
    (hrid : Results str messages rid callId) :
    parent ∈ selectedIds str messages ids ↔ rid ∈ selectedIds str messages ids := by
  have hfixed := apply_saturate (exchangesOf str messages).pass (validIds messages ids)
  exact (exchangesOf str messages).closed_of_closeCall
    (eq_self_of_foldl (exchangesOf str messages).subset_closeCall hfixed (callId, parent)
      (OrderedDict.mem_of_get _ hparent)) (mem_resultIds.mpr hrid)

/-- What is left of an increasing list from the first place with a property on. -/
theorem mem_dropWhile_not {l : List Nat} {p : Nat → Bool} {mid : Nat}
    (hsorted : l.Pairwise (· < ·)) :
    mid ∈ l.dropWhile (fun x => !p x) ↔ mid ∈ l ∧ ∃ first ∈ l, first ≤ mid ∧ p first = true := by
  induction l with
  | nil => simp
  | cons x l ih =>
      obtain ⟨hbelow, hrest⟩ := List.pairwise_cons.mp hsorted
      by_cases hx : p x = true
      · rw [List.dropWhile_cons_of_neg (by simp [hx])]
        constructor
        · intro h
          refine ⟨h, x, List.mem_cons_self, ?_, hx⟩
          obtain rfl | hl := List.mem_cons.mp h
          · exact Nat.le_refl _
          · exact Nat.le_of_lt (hbelow mid hl)
        · exact fun h => h.1
      · rw [List.dropWhile_cons_of_pos (by simp [hx]), ih hrest]
        constructor
        · intro h
          obtain ⟨hmid, first, hfirst, hle, hp⟩ := h
          exact ⟨List.mem_cons_of_mem _ hmid, first, List.mem_cons_of_mem _ hfirst, hle, hp⟩
        · intro h
          obtain ⟨hmid, first, hfirst, hle, hp⟩ := h
          obtain rfl | hfirst := List.mem_cons.mp hfirst
          · exact absurd hp hx
          · have hlt := hbelow first hfirst
            obtain hhere | hmid := List.mem_cons.mp hmid
            · omega
            · exact ⟨hmid, first, hfirst, hle, hp⟩

theorem sorted_selectedIds (messages : List (Obj F)) (ids : List Int) :
    ((selectedIds str messages ids).sort (· ≤ ·)).Pairwise (· < ·) :=
  (Finset.sortedLT_sort _).pairwise

theorem mem_canonicalIds {messages : List (Obj F)} {ids : List Int} {mid : Nat} :
    mid ∈ canonicalIds str messages ids ↔ mid ∈ selectedIds str messages ids ∧
      ∃ first ∈ validIds messages ids, first ≤ mid ∧ isUser messages first = true := by
  rw [canonicalIds, mem_dropWhile_not (sorted_selectedIds messages ids), Finset.mem_sort]
  constructor
  · intro h
    obtain ⟨hmid, first, hfirst, hle, huser⟩ := h
    exact ⟨hmid, first, (isUser_selectedIds huser).mp ((Finset.mem_sort _).mp hfirst), hle, huser⟩
  · intro h
    obtain ⟨hmid, first, hfirst, hle, huser⟩ := h
    exact ⟨hmid, first, (Finset.mem_sort _).mpr ((isUser_selectedIds huser).mpr hfirst), hle,
      huser⟩

/-- Places of messages in their order, from a user message on. -/
structure Selection (messages : List (Obj F)) where
  ids : List Nat
  sorted : ids.Pairwise (· < ·)
  inRange : ∀ mid ∈ ids, mid < messages.length
  starts : ∀ mid ∈ ids.head?, isUser messages mid = true

variable (str)

def select (messages : List (Obj F)) (ids : List Int) : Selection messages where
  ids := canonicalIds str messages ids
  sorted := (sorted_selectedIds messages ids).sublist (List.dropWhile_sublist _)
  inRange := fun _ h => lt_of_mem_selectedIds (mem_canonicalIds.mp h).1
  starts := by
    intro mid hmid
    have hhead := List.head?_dropWhile_not (fun mid => !isUser messages mid)
      ((selectedIds str messages ids).sort (· ≤ ·))
    rw [← canonicalIds, hmid] at hhead
    simpa using hhead

end Exchanges

/-! ## Turns -/

section Turns

variable (messages : List (Obj F))

/-- `_turn_groups` of the ids that are left, where `current` is not finished. -/
def turnGroups (current : List Nat) : List Nat → List (List Nat)
  | [] => if current = [] then [] else [current]
  | mid :: ids =>
      if isUser messages mid ∧ current ≠ [] then current :: turnGroups [mid] ids
      else turnGroups (current ++ [mid]) ids

variable {messages}

theorem flatten_turnGroups (current ids : List Nat) :
    (turnGroups messages current ids).flatten = current ++ ids := by
  induction ids generalizing current with
  | nil =>
      rw [turnGroups]
      split
      · next h => rw [h]; rfl
      · rw [List.flatten_singleton, List.append_nil]
  | cons mid ids ih =>
      rw [turnGroups]
      split
      · rw [List.flatten_cons, ih, List.singleton_append]
      · rw [ih, List.append_assoc, List.singleton_append]

/-- Every group begins with a user message when the ids do. -/
theorem head_turnGroups {current ids group : List Nat}
    (hstarts : ∀ mid ∈ (current ++ ids).head?, isUser messages mid = true)
    (h : group ∈ turnGroups messages current ids) :
    ∃ first rest, group = first :: rest ∧ isUser messages first = true := by
  induction ids generalizing current with
  | nil =>
      rw [turnGroups] at h
      split at h
      · cases h
      · next hcurrent =>
          obtain rfl := List.mem_singleton.mp h
          obtain ⟨first, rest, rfl⟩ := List.exists_cons_of_ne_nil hcurrent
          exact ⟨first, rest, rfl, hstarts first rfl⟩
  | cons mid ids ih =>
      rw [turnGroups] at h
      split at h
      · next hnew =>
          obtain rfl | hlater := List.mem_cons.mp h
          · obtain ⟨first, rest, rfl⟩ := List.exists_cons_of_ne_nil hnew.2
            exact ⟨first, rest, rfl, hstarts first rfl⟩
          · refine ih ?_ hlater
            intro first hfirst
            rw [List.singleton_append, List.head?_cons, Option.mem_some_iff] at hfirst
            rw [← hfirst]
            exact hnew.1
      · refine ih ?_ h
        rwa [List.append_assoc, List.singleton_append]

namespace Selection

variable (selection : Selection messages)

def groups : List (List Nat) := turnGroups messages [] selection.ids

theorem flatten_groups : selection.groups.flatten = selection.ids :=
  flatten_turnGroups [] selection.ids

variable {selection}

theorem mem_of_mem_group {group : List Nat} (h : group ∈ selection.groups) {mid : Nat}
    (hmid : mid ∈ group) : mid ∈ selection.ids := by
  rw [← selection.flatten_groups]
  exact List.mem_flatten.mpr ⟨group, h, hmid⟩

/-- A group begins with a user message, and its ids come after it. -/
theorem exists_user {group : List Nat} (h : group ∈ selection.groups) :
    ∃ first ∈ group, isUser messages first = true ∧ ∀ mid ∈ group, first ≤ mid := by
  obtain ⟨first, rest, rfl, huser⟩ :=
    head_turnGroups (by rw [List.nil_append]; exact selection.starts) h
  refine ⟨first, List.mem_cons_self, huser, ?_⟩
  have hsorted := selection.sorted
  rw [← selection.flatten_groups, List.pairwise_flatten] at hsorted
  intro mid hmid
  obtain rfl | hrest := List.mem_cons.mp hmid
  · exact Nat.le_refl _
  · exact Nat.le_of_lt (List.rel_of_pairwise_cons (hsorted.1 _ h) hrest)

/-- An id is in one group only. -/
theorem group_unique {group other : List Nat} (h : group ∈ selection.groups)
    (hother : other ∈ selection.groups) {mid : Nat} (hmid : mid ∈ group)
    (hmidOther : mid ∈ other) : group = other := by
  have hnodup : selection.groups.flatten.Nodup := by
    rw [selection.flatten_groups]
    exact selection.sorted.imp fun hlt => Nat.ne_of_lt hlt
  by_contra hne
  have hsymm : Std.Symm (@List.Disjoint Nat) := ⟨fun _ _ hapart => hapart.symm⟩
  exact (List.nodup_flatten.mp hnodup).2.forall h hother hne hmid hmidOther

end Selection

end Turns

end Context
end CodeCub

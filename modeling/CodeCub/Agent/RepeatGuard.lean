import Mathlib.Data.List.Basic
import CodeCub.Python.Find

/-!
# The guard against repeated calls

`Pico.repeated_tool_call` looks for a call among the tool events of the current request.
The executor asks `_RuntimeToolReplay.repeated`, which looks at the end of the history as
it is, with the notices that the loop records between the calls.
-/

namespace CodeCub
namespace Agent

open Python

variable {Args : Type}

/-- A record of the session history.  A notice of the loop (retry, recovery, finalization,
missing evidence) and an answer are both assistant records. -/
inductive HistoryRecord (Args : Type)
  | user (content : String)
  | assistant (content : String)
  | tool (name : String) (args : Args) (content : String)
  deriving DecidableEq, Repr

namespace HistoryRecord

def isUser : HistoryRecord Args → Bool
  | user _ => true
  | _ => false

def isTool : HistoryRecord Args → Bool
  | tool _ _ _ => true
  | _ => false

/-- `item.get("name") == name and item.get("args") == args`; the other records have
neither key. -/
def isCall [BEq Args] (name : String) (args : Args) : HistoryRecord Args → Bool
  | tool name' args' _ => name' == name && args' == args
  | _ => false

theorem isTool_of_isCall [BEq Args] {name : String} {args : Args} {item : HistoryRecord Args}
    (h : item.isCall name args = true) : item.isTool = true := by
  cases item with
  | user content => cases h
  | assistant content => cases h
  | tool name' args' content => rfl

theorem isUser_of_isTool {item : HistoryRecord Args} (h : item.isTool = true) :
    item.isUser = false := by
  cases item with
  | user content => cases h
  | assistant content => rfl
  | tool name args content => rfl

end HistoryRecord

open HistoryRecord

def repeatedNoProgressLimit : Nat := 5

/-- The tool events of a history that stands newest first, up to the latest user message. -/
def toolEventsSince : List (HistoryRecord Args) → List (HistoryRecord Args)
  | [] => []
  | item :: rest =>
      if item.isUser then []
      else if item.isTool then item :: toolEventsSince rest
      else toolEventsSince rest

def currentRequestToolEvents (history : List (HistoryRecord Args)) : List (HistoryRecord Args) :=
  (toolEventsSince history.reverse).reverse

variable [BEq Args]

/-- The last `required` of these records are this call. -/
def endsWithCalls (required : Nat) (items : List (HistoryRecord Args)) (name : String)
    (args : Args) : Bool :=
  if items.length < required then false
  else (lastN required items).all (isCall name args)

/-- `Pico.repeated_tool_call`. -/
def repeatedToolCall (history : List (HistoryRecord Args)) (name : String) (args : Args) : Bool :=
  endsWithCalls (repeatedNoProgressLimit - 1) (currentRequestToolEvents history) name args

/-- `_RuntimeToolReplay.repeated`. -/
def repeated (history : List (HistoryRecord Args)) (name : String) (args : Args) : Bool :=
  endsWithCalls (repeatedNoProgressLimit - 1) history name args

/-- The request ends with this call `extra + 1` times; `after` is what was recorded since
the first of these. -/
structure Repeats (extra : Nat) (name : String) (args : Args)
    (after : List (HistoryRecord Args)) : Prop where
  request : ∀ item ∈ after, item.isUser = false
  calls : (after.filter isTool).length = extra
  same : ∀ item ∈ after, item.isTool = true → item.isCall name args = true

/-- Something else than a call was recorded among the last calls, all of which are this
one. -/
def Interrupted (history : List (HistoryRecord Args)) (name : String) (args : Args) : Prop :=
  ∃ before call after, history = before ++ call :: after ∧ call.isCall name args = true ∧
    Repeats (repeatedNoProgressLimit - 2) name args after ∧
      ∃ item ∈ after, item.isTool = false

variable {name : String} {args : Args} {history newest : List (HistoryRecord Args)} {extra : Nat}

theorem lastN_eq_reverse_take {α : Type} (n : Nat) (l : List α) :
    lastN n l = (l.reverse.take n).reverse := by
  unfold lastN
  rw [List.take_reverse, List.reverse_reverse]

theorem endsWithCalls_iff {items : List (HistoryRecord Args)} {required : Nat} :
    endsWithCalls required items name args = true ↔ required ≤ items.length ∧
      ∀ item ∈ items.reverse.take required, item.isCall name args = true := by
  unfold endsWithCalls
  rw [lastN_eq_reverse_take, List.all_reverse]
  split
  · next hshort =>
      refine iff_of_false Bool.false_ne_true ?_
      rintro ⟨hlong, -⟩
      omega
  · next hlong =>
      rw [List.all_eq_true, and_iff_right (by omega)]

/-! ## The tool events -/

theorem repeats_nil : Repeats extra name args ([] : List (HistoryRecord Args)) ↔ extra = 0 := by
  constructor
  · intro h
    exact h.calls.symm
  · rintro rfl
    exact ⟨fun item hitem => absurd hitem List.not_mem_nil, rfl,
      fun item hitem => absurd hitem List.not_mem_nil⟩

theorem repeats_cons_notice {item : HistoryRecord Args} {front : List (HistoryRecord Args)}
    (huser : item.isUser = false) (htool : item.isTool = false) :
    Repeats extra name args (item :: front) ↔ Repeats extra name args front := by
  have hfilter : (item :: front).filter isTool = front.filter isTool :=
    List.filter_cons_of_neg (by rw [htool]; exact Bool.false_ne_true)
  constructor
  · intro h
    refine ⟨fun other hother => h.request other (List.mem_cons_of_mem _ hother), ?_,
      fun other hother => h.same other (List.mem_cons_of_mem _ hother)⟩
    rw [← hfilter]
    exact h.calls
  · intro h
    refine ⟨List.forall_mem_cons.mpr ⟨huser, h.request⟩, ?_, List.forall_mem_cons.mpr ⟨?_, h.same⟩⟩
    · rw [hfilter]
      exact h.calls
    · intro hitem
      rw [htool] at hitem
      cases hitem

theorem repeats_cons_tool {item : HistoryRecord Args} {front : List (HistoryRecord Args)}
    (htool : item.isTool = true) : Repeats (extra + 1) name args (item :: front) ↔
      item.isCall name args = true ∧ Repeats extra name args front := by
  have hlength : ((item :: front).filter isTool).length = (front.filter isTool).length + 1 := by
    rw [List.filter_cons_of_pos htool, List.length_cons]
  constructor
  · intro h
    refine ⟨h.same item List.mem_cons_self htool,
      fun other hother => h.request other (List.mem_cons_of_mem _ hother), ?_,
      fun other hother => h.same other (List.mem_cons_of_mem _ hother)⟩
    have hcalls := h.calls
    omega
  · rintro ⟨hcall, h⟩
    refine ⟨List.forall_mem_cons.mpr ⟨isUser_of_isTool htool, h.request⟩, ?_,
      List.forall_mem_cons.mpr ⟨fun _ => hcall, h.same⟩⟩
    have hcalls := h.calls
    omega

theorem not_repeats_zero_cons_tool {item : HistoryRecord Args} {front : List (HistoryRecord Args)}
    (htool : item.isTool = true) : ¬ Repeats 0 name args (item :: front) := by
  intro h
  have hcalls := h.calls
  rw [List.filter_cons_of_pos htool, List.length_cons] at hcalls
  omega

/-- A split of a list with a first element: at this element or behind it. -/
theorem split_cons_iff {α : Type} {P : List α → α → Prop} {item : α} {rest : List α} :
    (∃ front call back, item :: rest = front ++ call :: back ∧ P front call) ↔
      P [] item ∨ ∃ front call back, rest = front ++ call :: back ∧ P (item :: front) call := by
  constructor
  · rintro ⟨front, call, back, hsplit, h⟩
    cases front with
    | nil =>
        cases hsplit
        exact Or.inl h
    | cons first front =>
        cases hsplit
        exact Or.inr ⟨front, call, back, rfl, h⟩
  · rintro (h | ⟨front, call, back, rfl, h⟩)
    · exact ⟨[], item, rest, rfl, h⟩
    · exact ⟨item :: front, call, back, rfl, h⟩

/-- What a list newest first looks like where its tool events start with this call
`extra + 1` times. -/
theorem toolEventsSince_iff :
    (extra + 1 ≤ (toolEventsSince newest).length ∧
      ∀ item ∈ (toolEventsSince newest).take (extra + 1), item.isCall name args = true) ↔
    ∃ front call back, newest = front ++ call :: back ∧ call.isCall name args = true ∧
      Repeats extra name args front := by
  induction newest generalizing extra with
  | nil =>
      refine iff_of_false ?_ ?_
      · rintro ⟨hlength, -⟩
        exact absurd hlength (Nat.not_succ_le_zero extra)
      · rintro ⟨front, call, back, hsplit, -⟩
        exact absurd hsplit.symm (List.append_ne_nil_of_right_ne_nil _ (List.cons_ne_nil _ _))
  | cons item rest ih =>
      rw [split_cons_iff (P := fun front call => call.isCall name args = true ∧
        Repeats extra name args front)]
      by_cases htool : item.isTool = true
      · have huser := isUser_of_isTool htool
        have hevents : toolEventsSince (item :: rest) = item :: toolEventsSince rest := by
          rw [toolEventsSince, huser, htool]
          rfl
        rw [hevents, List.length_cons, List.take_succ_cons, List.forall_mem_cons]
        cases extra with
        | zero =>
            simp [repeats_nil, not_repeats_zero_cons_tool htool]
        | succ extra =>
            rw [Nat.add_le_add_iff_right, and_left_comm, ih, repeats_nil]
            simp only [repeats_cons_tool htool]
            constructor
            · rintro ⟨hcall, front, call, back, hsplit, hlast, h⟩
              exact Or.inr ⟨front, call, back, hsplit, hlast, hcall, h⟩
            · rintro (⟨-, h⟩ | ⟨front, call, back, hsplit, hlast, hcall, h⟩)
              · exact absurd h (Nat.succ_ne_zero extra)
              · exact ⟨hcall, front, call, back, hsplit, hlast, h⟩
      · rw [Bool.not_eq_true] at htool
        have hother : item.isCall name args ≠ true := by
          intro hcall
          rw [isTool_of_isCall hcall] at htool
          cases htool
        rw [or_iff_right (fun h => hother h.1)]
        by_cases huser : item.isUser = true
        · have hevents : toolEventsSince (item :: rest) = [] := by
            rw [toolEventsSince, huser]
            rfl
          rw [hevents]
          refine iff_of_false (fun h => absurd h.1 (Nat.not_succ_le_zero extra)) ?_
          rintro ⟨front, call, back, -, -, h⟩
          have hrequest := h.request item List.mem_cons_self
          rw [huser] at hrequest
          cases hrequest
        · rw [Bool.not_eq_true] at huser
          have hevents : toolEventsSince (item :: rest) = toolEventsSince rest := by
            rw [toolEventsSince, huser, htool]
            rfl
          rw [hevents, ih]
          simp only [repeats_cons_notice huser htool]

/-! ## The two guards -/

theorem repeats_reverse {front : List (HistoryRecord Args)} :
    Repeats extra name args front.reverse ↔ Repeats extra name args front := by
  constructor
  · intro h
    refine ⟨fun item hitem => h.request item (List.mem_reverse.mpr hitem), ?_,
      fun item hitem => h.same item (List.mem_reverse.mpr hitem)⟩
    have hcalls := h.calls
    rw [List.filter_reverse, List.length_reverse] at hcalls
    exact hcalls
  · intro h
    refine ⟨fun item hitem => h.request item (List.mem_reverse.mp hitem), ?_,
      fun item hitem => h.same item (List.mem_reverse.mp hitem)⟩
    rw [List.filter_reverse, List.length_reverse]
    exact h.calls

/-- `Pico.repeated_tool_call` looks through the notices. -/
theorem repeatedToolCall_iff : repeatedToolCall history name args = true ↔
    ∃ before call after, history = before ++ call :: after ∧ call.isCall name args = true ∧
      Repeats (repeatedNoProgressLimit - 2) name args after := by
  unfold repeatedToolCall currentRequestToolEvents
  rw [endsWithCalls_iff, List.length_reverse, List.reverse_reverse]
  show (repeatedNoProgressLimit - 2 + 1 ≤ _ ∧
    ∀ item ∈ List.take (repeatedNoProgressLimit - 2 + 1) _, _) ↔ _
  rw [toolEventsSince_iff]
  constructor
  · rintro ⟨front, call, back, hsplit, hcall, h⟩
    refine ⟨back.reverse, call, front.reverse, ?_, hcall, repeats_reverse.mpr h⟩
    rw [← List.reverse_reverse history, hsplit]
    simp
  · rintro ⟨before, call, after, rfl, hcall, h⟩
    refine ⟨after.reverse, call, before.reverse, ?_, hcall, repeats_reverse.mpr h⟩
    simp

/-- `_RuntimeToolReplay.repeated` sees the end of the history alone. -/
theorem repeated_iff : repeated history name args = true ↔
    ∃ before after, history = before ++ after ∧ after.length = repeatedNoProgressLimit - 1 ∧
      ∀ item ∈ after, item.isCall name args = true := by
  unfold repeated
  rw [endsWithCalls_iff]
  constructor
  · rintro ⟨hlength, hcalls⟩
    refine ⟨history.take (history.length - (repeatedNoProgressLimit - 1)),
      history.drop (history.length - (repeatedNoProgressLimit - 1)),
      (List.take_append_drop _ _).symm, ?_, ?_⟩
    · rw [List.length_drop]
      omega
    · intro item hitem
      apply hcalls
      rw [List.take_reverse, List.mem_reverse]
      exact hitem
  · rintro ⟨before, after, rfl, hlength, hcalls⟩
    refine ⟨?_, fun item hitem => ?_⟩
    · rw [List.length_append]
      omega
    · rw [List.take_reverse, List.length_append, ← hlength, Nat.add_sub_cancel,
        List.drop_left, List.mem_reverse] at hitem
      exact hcalls item hitem

/-- The calls at the end of the history are calls of the request. -/
theorem repeatedToolCall_of_repeated (h : repeated history name args = true) :
    repeatedToolCall history name args = true := by
  obtain ⟨before, after, rfl, hlength, hcalls⟩ := repeated_iff.mp h
  cases after with
  | nil => exact absurd hlength (show ¬ 0 = repeatedNoProgressLimit - 1 by decide)
  | cons call after =>
      rw [List.forall_mem_cons] at hcalls
      have htools : ∀ item ∈ after, item.isTool = true := fun item hitem =>
        isTool_of_isCall (hcalls.2 item hitem)
      refine repeatedToolCall_iff.mpr ⟨before, call, after, rfl, hcalls.1,
        fun item hitem => isUser_of_isTool (htools item hitem), ?_,
        fun item hitem _ => hcalls.2 item hitem⟩
      rw [List.filter_eq_self.mpr htools]
      rw [List.length_cons] at hlength
      omega

/-- Without a notice among them, the calls are the end of the history. -/
theorem repeated_of_uninterrupted {before after : List (HistoryRecord Args)}
    {call : HistoryRecord Args} (hcall : call.isCall name args = true)
    (h : Repeats (repeatedNoProgressLimit - 2) name args after)
    (htools : ∀ item ∈ after, item.isTool = true) :
    repeated (before ++ call :: after) name args = true := by
  refine repeated_iff.mpr ⟨before, call :: after, rfl, ?_, ?_⟩
  · have hcalls := h.calls
    rw [List.filter_eq_self.mpr htools] at hcalls
    rw [List.length_cons, hcalls]
    rfl
  · exact List.forall_mem_cons.mpr ⟨hcall, fun item hitem => h.same item hitem (htools item hitem)⟩

/-- With a notice among them, fewer calls stand at the end of the history. -/
theorem not_repeated_of_interrupted (h : Interrupted history name args) :
    repeated history name args = false := by
  obtain ⟨before, call, after, rfl, -, hrepeats, notice, hnotice, htool⟩ := h
  rw [← Bool.not_eq_true]
  intro hrepeated
  obtain ⟨front, calls, hsplit, hlength, hcalls⟩ := repeated_iff.mp hrepeated
  have htools : calls.filter isTool = calls :=
    List.filter_eq_self.mpr fun item hitem => isTool_of_isCall (hcalls item hitem)
  have hcount := hrepeats.calls
  rcases Nat.lt_or_ge after.length calls.length with hshort | hlong
  · -- all of `after` is among the calls at the end, the notice too
    have hsuffix : after <:+ calls := by
      refine List.suffix_of_suffix_length_le ?_ ⟨front, rfl⟩ (by omega)
      rw [← hsplit]
      exact (List.suffix_cons call after).trans (List.suffix_append _ _)
    have hcall := hcalls notice (hsuffix.subset hnotice)
    rw [isTool_of_isCall hcall] at htool
    cases htool
  · -- the calls at the end are one more than the calls in `after`
    have hsuffix : calls <:+ after := by
      refine List.suffix_of_suffix_length_le ⟨front, rfl⟩ ?_ hlong
      rw [← hsplit]
      exact (List.suffix_cons call after).trans (List.suffix_append _ _)
    have hle := (hsuffix.filter isTool).length_le
    rw [htools, hlength, hcount] at hle
    exact absurd hle (by decide)

/-- The guards agree unless a notice stands among the last calls of the request and all of
these are the call in question. -/
theorem repeated_eq_iff (history : List (HistoryRecord Args)) (name : String) (args : Args) :
    repeated history name args = repeatedToolCall history name args ↔
      ¬ Interrupted history name args := by
  constructor
  · intro hsame hinterrupted
    rw [not_repeated_of_interrupted hinterrupted] at hsame
    obtain ⟨before, call, after, hsplit, hcall, hrepeats, -⟩ := hinterrupted
    rw [repeatedToolCall_iff.mpr ⟨before, call, after, hsplit, hcall, hrepeats⟩] at hsame
    cases hsame
  · intro hclear
    rw [Bool.eq_iff_iff]
    refine ⟨repeatedToolCall_of_repeated, fun h => ?_⟩
    obtain ⟨before, call, after, rfl, hcall, hrepeats⟩ := repeatedToolCall_iff.mp h
    refine repeated_of_uninterrupted hcall hrepeats fun item hitem => ?_
    by_contra htool
    rw [Bool.not_eq_true] at htool
    exact hclear ⟨before, call, after, rfl, hcall, hrepeats, item, hitem, htool⟩

/-- Four equal reads, with the notice about an unreadable answer behind the first. -/
theorem retry_hides_calls :
    let read : HistoryRecord String := .tool "read_file" "README.md" "# notes"
    let history := [.user "Summarize README.md", read, .assistant "Reply with one tool call.",
      read, read, read]
    repeatedToolCall history "read_file" "README.md" = true ∧
      repeated history "read_file" "README.md" = false := by
  decide

end Agent
end CodeCub

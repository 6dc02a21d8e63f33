import Mathlib.Data.List.Basic

/-!
# Whole exchanges

A conversation in which an entry may ask for answers under some identities, and every answer
names one identity.  An exchange is whole when the answers follow at once, each once and in the
order they were asked for.
-/

namespace Exchanges

inductive Event (ι : Type) where
  /-- An entry that asks for nothing has no identities. -/
  | asks (ids : List ι)
  | answers (id : ι)

variable {ι α : Type} [DecidableEq ι]

/-- What is still to be answered after the events, if every one of them was in order. -/
def scan : List ι → List (Event ι) → Option (List ι)
  | pending, [] => some pending
  | [], .asks ids :: rest => scan ids rest
  | id :: pending, .answers other :: rest => if id = other then scan pending rest else none
  | _ :: _, .asks _ :: _ => none
  | [], .answers _ :: _ => none

/-- The conversation consists of whole exchanges. -/
def Whole (events : List (Event ι)) : Prop := scan [] events = some []

def exchange (ids : List ι) : List (Event ι) := .asks ids :: ids.map .answers

variable {pending ids : List ι} {events more : List (Event ι)}

theorem scan_cons_answers (id other : ι) (pending : List ι) (rest : List (Event ι)) :
    scan (id :: pending) (.answers other :: rest) =
      if id = other then scan pending rest else none :=
  rfl

theorem scan_append :
    scan pending (events ++ more) = (scan pending events).bind fun left => scan left more := by
  induction events generalizing pending with
  | nil => rfl
  | cons event rest ih =>
      cases event with
      | asks ids =>
          cases pending with
          | nil => exact ih
          | cons id pending => rfl
      | answers other =>
          cases pending with
          | nil => rfl
          | cons id pending =>
              rw [List.cons_append, scan_cons_answers, scan_cons_answers]
              split
              · exact ih
              · rfl

theorem whole_nil : Whole ([] : List (Event ι)) := rfl

theorem Whole.append (h : Whole events) (hmore : Whole more) : Whole (events ++ more) := by
  unfold Whole at h ⊢
  rw [scan_append, h]
  exact hmore

theorem scan_answers (ids more : List ι) :
    scan (ids ++ more) (ids.map Event.answers) = some more := by
  induction ids with
  | nil => rfl
  | cons id ids ih =>
      rw [List.map_cons, List.cons_append, scan_cons_answers, if_pos rfl]
      exact ih

theorem whole_exchange (ids : List ι) : Whole (exchange ids) := by
  have h := scan_answers ids []
  rw [List.append_nil] at h
  exact h

/-- A pending list is answered by exactly the answers it asks for. -/
theorem scan_eq_some_nil (h : scan pending events = some []) :
    ∃ rest, events = pending.map Event.answers ++ rest ∧ Whole rest := by
  induction pending generalizing events with
  | nil => exact ⟨events, rfl, h⟩
  | cons id pending ih =>
      cases events with
      | nil => cases h
      | cons event rest =>
          cases event with
          | asks ids => cases h
          | answers other =>
              rw [scan_cons_answers] at h
              split at h
              · next hid =>
                  obtain ⟨later, rfl, hlater⟩ := ih h
                  exact ⟨later, by rw [hid]; rfl, hlater⟩
              · cases h

/-- The scan accepts the sequences of whole exchanges and no others. -/
theorem whole_iff : Whole events ↔ ∃ groups : List (List ι), events = groups.flatMap exchange := by
  constructor
  · intro h
    generalize hlen : events.length = n
    induction n using Nat.strongRecOn generalizing events with
    | ind n ih =>
        cases events with
        | nil => exact ⟨[], rfl⟩
        | cons event rest =>
            cases event with
            | answers id => cases h
            | asks ids =>
                have hanswers : scan ids rest = some [] := h
                obtain ⟨later, rfl, hlater⟩ := scan_eq_some_nil hanswers
                have hshorter : later.length < n := by
                  rw [← hlen, List.length_cons, List.length_append]
                  omega
                obtain ⟨groups, rfl⟩ := ih later.length hshorter hlater rfl
                exact ⟨ids :: groups, rfl⟩
  · intro h
    obtain ⟨groups, rfl⟩ := h
    induction groups with
    | nil => exact whole_nil
    | cons ids groups ih => exact (whole_exchange ids).append ih

/-- Entries that ask for nothing may be left out. -/
theorem scan_filter {event : α → Event ι} {keep : α → Bool} {entries : List α}
    (hdrop : ∀ a ∈ entries, keep a = false → event a = .asks []) {left : List ι}
    (h : scan pending (entries.map event) = some left) :
    scan pending ((entries.filter keep).map event) = some left := by
  induction entries generalizing pending with
  | nil => exact h
  | cons a rest ih =>
      have hrest : ∀ b ∈ rest, keep b = false → event b = .asks [] :=
        fun b hb => hdrop b (List.mem_cons_of_mem _ hb)
      cases hkeep : keep a with
      | false =>
          rw [List.filter_cons_of_neg (by rw [hkeep]; exact Bool.false_ne_true)]
          rw [List.map_cons, hdrop a List.mem_cons_self hkeep] at h
          cases pending with
          | nil => exact ih hrest h
          | cons id pending => cases h
      | true =>
          rw [List.filter_cons_of_pos hkeep]
          rw [List.map_cons] at h ⊢
          cases hevent : event a with
          | asks ids =>
              rw [hevent] at h
              cases pending with
              | nil => exact ih hrest h
              | cons id pending => cases h
          | answers other =>
              rw [hevent] at h
              cases pending with
              | nil => cases h
              | cons id pending =>
                  rw [scan_cons_answers] at h ⊢
                  split at h
                  · next hid =>
                      rw [if_pos hid]
                      exact ih hrest h
                  · cases h

theorem Whole.filter {event : α → Event ι} {keep : α → Bool} {entries : List α}
    (h : Whole (entries.map event))
    (hdrop : ∀ a ∈ entries, keep a = false → event a = .asks []) :
    Whole ((entries.filter keep).map event) :=
  scan_filter hdrop h

end Exchanges

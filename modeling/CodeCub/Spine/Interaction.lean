import CodeCub.Machine.Run
import CodeCub.Python.OrderedDict

/-!
# Interactions

A runtime that needs an answer from outside makes a request, and a thread of it waits;
a surface resolves the request by its id.  The threads meet at the broker's lock, so the
steps below are its critical sections, and between them the two ways `Event.wait`
can come back.

A wait that timed out takes the lock again before it removes its id.  An answer
accepted in between is thrown away with the entry.
-/

namespace CodeCub
namespace Spine

open Python (OrderedDict)

structure InteractionRequest (P : Type) where
  interactionId : String
  kind : String
  runId : String
  payload : P
  deriving DecidableEq, Repr

/-- A value of `_pending`.  Events are numbered: the `n`-th call of `request` makes
the `n`-th one. -/
structure PendingInteraction (P V : Type) where
  request : InteractionRequest P
  event : Nat
  value : Option V
  deriving DecidableEq, Repr

inductive WaitError where
  | unknownInteraction
  | timedOut
  | missingKey (interactionId : String)
  deriving DecidableEq, Repr

/-- Where a call of `wait` is: at its event, past it one way or the other, or over. -/
inductive WaitPhase (V : Type) where
  | blocked (event : Nat)
  | expired
  | signalled
  | returned (value : Option V)
  | raised (error : WaitError)
  deriving DecidableEq, Repr

/-- A call of `wait` on the result of call number `request` of `request`; `timed` says
that its timeout is not `None`. -/
structure WaitCall (V : Type) where
  request : Nat
  interactionId : String
  timed : Bool
  phase : WaitPhase V
  deriving DecidableEq, Repr

/-- A call of `cancel_run`: the ids it read and has not resolved, and its sum. -/
structure CancelCall (V : Type) where
  runId : String
  value : V
  interactionIds : List String
  resolved : Nat
  deriving DecidableEq, Repr

/-- The broker, the calls on it, and what happened: the requests made and, for each
event, whether it is set; `accepted` lists the resolves that returned true. -/
structure InteractionBroker (P V : Type) where
  pending : OrderedDict String (PendingInteraction P V) := ∅
  requests : List (InteractionRequest P) := []
  events : List Bool := []
  waits : List (WaitCall V) := []
  cancels : List (CancelCall V) := []
  accepted : List (Nat × V) := []

inductive BrokerStep (P V : Type) where
  | request (kind runId : String) (payload : P) (interactionId uuid : String)
  | resolve (interactionId : String) (value : V) (runId : String)
  | wait (request : Nat) (timed : Bool)
  | timeout (call : Nat)
  | signal (call : Nat)
  | finish (call : Nat)
  | cancelRun (runId : String) (value : V)
  | cancelNext (call : Nat)
  deriving DecidableEq, Repr

namespace InteractionBroker

variable {P V : Type} (b : InteractionBroker P V)

def isSet (event : Nat) : Bool := b.events[event]?.getD false

/-- `interaction_id or uuid4().hex`. -/
def chosenId (interactionId uuid : String) : String :=
  if interactionId = "" then uuid else interactionId

def request (kind runId : String) (payload : P) (interactionId uuid : String) :
    InteractionBroker P V :=
  let request : InteractionRequest P :=
    { interactionId := chosenId interactionId uuid, kind, runId, payload }
  { b with
    pending := b.pending.set request.interactionId
      { request, event := b.requests.length, value := none }
    requests := b.requests ++ [request]
    events := b.events ++ [false] }

def resolve (interactionId : String) (value : V) (runId : String) :
    InteractionBroker P V × Bool :=
  match b.pending.get interactionId with
  | none => (b, false)
  | some item =>
      if runId ≠ "" ∧ item.request.runId ≠ runId then (b, false)
      else if b.isSet item.event then (b, false)
      else
        ({ b with
            pending := b.pending.set interactionId { item with value := some value }
            events := b.events.set item.event true
            accepted := b.accepted ++ [(item.event, value)] },
          true)

/-- The look-up of a `wait` on a request that was made. -/
def wait (request : Nat) (timed : Bool) : InteractionBroker P V :=
  match b.requests[request]? with
  | none => b
  | some made =>
      let phase : WaitPhase V :=
        match b.pending.get made.interactionId with
        | none => .raised .unknownInteraction
        | some item => .blocked item.event
      { b with
        waits := b.waits ++ [{ request, interactionId := made.interactionId, timed, phase }] }

/-- The call moves on, the broker stays. -/
def setPhase (call : Nat) (w : WaitCall V) (phase : WaitPhase V) : InteractionBroker P V :=
  { b with waits := b.waits.set call { w with phase } }

/-- `event.wait` comes back: with false when it gave up on an event that was not
set, with true when the event is set. -/
def wake (call : Nat) (inTime : Bool) : InteractionBroker P V :=
  match b.waits[call]? with
  | none => b
  | some w =>
      match w.phase with
      | .blocked event =>
          if b.isSet event = inTime ∧ (inTime ∨ w.timed) then
            b.setPhase call w (if inTime then .signalled else .expired)
          else b
      | _ => b

/-- The last critical section of a `wait`. -/
def finish (call : Nat) : InteractionBroker P V :=
  match b.waits[call]? with
  | none => b
  | some w =>
      match w.phase with
      | .expired =>
          { b.setPhase call w (.raised .timedOut) with pending := b.pending.pop w.interactionId }
      | .signalled =>
          match b.pending.get w.interactionId with
          | none => b.setPhase call w (.raised (.missingKey w.interactionId))
          | some item =>
              { b.setPhase call w (.returned item.value) with
                pending := b.pending.pop w.interactionId }
      | _ => b

/-- The ids that `cancel_run` reads under the lock. -/
def runInteractions (runId : String) : List String :=
  (b.pending.entries.filter fun entry => entry.2.request.runId = runId).map Prod.fst

def cancelRun (runId : String) (value : V) : InteractionBroker P V :=
  { b with
    cancels := b.cancels ++
      [{ runId, value, interactionIds := b.runInteractions runId, resolved := 0 }] }

/-- One round of the sum of `cancel_run`. -/
def cancelNext (call : Nat) : InteractionBroker P V :=
  match b.cancels[call]? with
  | none => b
  | some c =>
      match c.interactionIds with
      | [] => b
      | interactionId :: rest =>
          let (b', accepted) := b.resolve interactionId c.value c.runId
          { b' with
            cancels := b'.cancels.set call
              { c with interactionIds := rest, resolved := c.resolved + accepted.toNat } }

def apply : BrokerStep P V → InteractionBroker P V
  | .request kind runId payload interactionId uuid =>
      b.request kind runId payload interactionId uuid
  | .resolve interactionId value runId => (b.resolve interactionId value runId).1
  | .wait request timed => b.wait request timed
  | .timeout call => b.wake call false
  | .signal call => b.wake call true
  | .finish call => b.finish call
  | .cancelRun runId value => b.cancelRun runId value
  | .cancelNext call => b.cancelNext call

end InteractionBroker

/-- The critical sections in any order. -/
def brokerMachine (P V : Type) : Machine (InteractionBroker P V) (BrokerStep P V) Unit :=
  ⟨fun b i => (b.apply i, ())⟩

namespace InteractionBroker

variable {P V : Type} {b : InteractionBroker P V}

/-! ## What always holds -/

/-- The entry under the id of `w` is not the one of its request. -/
def Gone (b : InteractionBroker P V) (w : WaitCall V) : Prop :=
  ∀ item, b.pending.get w.interactionId = some item → item.event ≠ w.request

/-- An entry stands under its own id, and once its event is set it holds the value
that was accepted for it; an event is set once; and a request whose wait timed out is
not pending. -/
structure Sound (b : InteractionBroker P V) : Prop where
  numbered : b.events.length = b.requests.length
  own : ∀ id item, b.pending.get id = some item →
    b.requests[item.event]? = some item.request ∧ item.request.interactionId = id
  answered : ∀ id item, b.pending.get id = some item → b.isSet item.event = true →
    ∃ v, item.value = some v ∧ (item.event, v) ∈ b.accepted
  set : ∀ event v, (event, v) ∈ b.accepted → b.isSet event = true
  once : (b.accepted.map Prod.fst).Nodup
  made : ∀ w ∈ b.waits, ∃ made, b.requests[w.request]? = some made ∧
    made.interactionId = w.interactionId
  timedOut : ∀ w ∈ b.waits, w.phase = .raised .timedOut → b.Gone w

theorem sound_init : Sound ({} : InteractionBroker P V) where
  numbered := rfl
  own id item h := by cases h
  answered id item h := by cases h
  set event v h := by cases h
  once := List.nodup_nil
  made w h := by cases h
  timedOut w h := by cases h

namespace Sound

theorem event_lt (h : Sound b) {id : String} {item : PendingInteraction P V}
    (hget : b.pending.get id = some item) : item.event < b.requests.length :=
  (List.getElem?_eq_some_iff.mp (h.own id item hget).1).1

theorem request_lt (h : Sound b) {w : WaitCall V} (hw : w ∈ b.waits) :
    w.request < b.requests.length := by
  obtain ⟨made, hmade, -⟩ := h.made w hw
  exact (List.getElem?_eq_some_iff.mp hmade).1

/-- The id of a wait and the id of the entry of its request are one. -/
theorem id_eq (h : Sound b) {w : WaitCall V} (hw : w ∈ b.waits) {id : String}
    {item : PendingInteraction P V} (hget : b.pending.get id = some item)
    (hsame : item.event = w.request) : id = w.interactionId := by
  obtain ⟨made, hmade, hid⟩ := h.made w hw
  obtain ⟨hrequest, hown⟩ := h.own id item hget
  rw [hsame, hmade, Option.some.injEq] at hrequest
  rw [← hown, ← hrequest, hid]

theorem ne_of_gone (h : Sound b) {w : WaitCall V} (hw : w ∈ b.waits) (hgone : b.Gone w)
    {id : String} {item : PendingInteraction P V} (hget : b.pending.get id = some item) :
    item.event ≠ w.request := by
  intro hsame
  have hid := h.id_eq hw hget hsame
  subst hid
  exact hgone item hget hsame

theorem accepted_unique (h : Sound b) {event : Nat} {v v' : V} (hv : (event, v) ∈ b.accepted)
    (hv' : (event, v') ∈ b.accepted) : v = v' := by
  have hpair := List.inj_on_of_nodup_map h.once hv hv' rfl
  exact (Prod.mk.inj hpair).2

theorem withCancels (h : Sound b) (cancels : List (CancelCall V)) :
    Sound { b with cancels := cancels } :=
  ⟨h.numbered, h.own, h.answered, h.set, h.once, h.made, h.timedOut⟩

end Sound

/-! ### Requests -/

section Request

variable (kind runId : String) (payload : P) (interactionId uuid : String)

theorem isSet_request (event : Nat) :
    (b.request kind runId payload interactionId uuid).isSet event = b.isSet event := by
  show (b.events ++ [false])[event]?.getD false = b.events[event]?.getD false
  by_cases hlt : event < b.events.length
  · rw [List.getElem?_append_left hlt]
  · rw [List.getElem?_append_right (by omega), List.getElem?_eq_none (l := b.events) (by omega)]
    cases event - b.events.length <;> rfl

theorem requests_request {n : Nat} {made : InteractionRequest P}
    (h : b.requests[n]? = some made) :
    (b.request kind runId payload interactionId uuid).requests[n]? = some made := by
  show (b.requests ++ [_])[n]? = some made
  rw [List.getElem?_append_left (List.getElem?_eq_some_iff.mp h).1, h]

/-- What stands under an id after a request: an old entry, or the new one. -/
theorem get_request {id : String} {item : PendingInteraction P V}
    (h : (b.request kind runId payload interactionId uuid).pending.get id = some item) :
    (b.pending.get id = some item ∧ id ≠ chosenId interactionId uuid) ∨
      (id = chosenId interactionId uuid ∧ item.event = b.requests.length ∧ item.value = none ∧
        item.request.interactionId = id ∧
        (b.request kind runId payload interactionId uuid).requests[b.requests.length]? =
          some item.request) := by
  have hget := h
  rw [show (b.request kind runId payload interactionId uuid).pending = b.pending.set _ _ from rfl,
    Python.OrderedDict.get_set] at hget
  by_cases hid : id = chosenId interactionId uuid
  · rw [if_pos hid, Option.some.injEq] at hget
    subst hget
    refine Or.inr ⟨hid, rfl, rfl, hid.symm, ?_⟩
    show (b.requests ++ [_])[b.requests.length]? = _
    rw [List.getElem?_append_right (Nat.le_refl _), Nat.sub_self]
    rfl
  · rw [if_neg hid] at hget
    exact Or.inl ⟨hget, hid⟩

theorem gone_request (h : Sound b) {w : WaitCall V} (hw : w ∈ b.waits) (hgone : b.Gone w) :
    (b.request kind runId payload interactionId uuid).Gone w := by
  intro item hget
  rcases get_request kind runId payload interactionId uuid hget with ⟨hold, -⟩ | ⟨-, hnew, -⟩
  · exact hgone item hold
  · have hlt := h.request_lt hw
    omega

theorem Sound.request (h : Sound b) :
    Sound (b.request kind runId payload interactionId uuid) where
  numbered := by
    show (b.events ++ [false]).length = (b.requests ++ [_]).length
    simp [h.numbered]
  own id item hget := by
    rcases get_request kind runId payload interactionId uuid hget with
      ⟨hold, -⟩ | ⟨-, hnew, -, hid, hmade⟩
    · exact ⟨requests_request kind runId payload interactionId uuid (h.own id item hold).1,
        (h.own id item hold).2⟩
    · rw [hnew]
      exact ⟨hmade, hid⟩
  answered id item hget hset := by
    rw [isSet_request kind runId payload interactionId uuid] at hset
    rcases get_request kind runId payload interactionId uuid hget with ⟨hold, -⟩ | ⟨-, hnew, -⟩
    · exact h.answered id item hold hset
    · have hlen := h.numbered
      rw [isSet, List.getElem?_eq_none (by omega)] at hset
      cases hset
  set event v hv := by
    rw [isSet_request kind runId payload interactionId uuid]
    exact h.set event v hv
  once := h.once
  made w hw := by
    obtain ⟨made, hmade, hid⟩ := h.made w hw
    exact ⟨made, requests_request kind runId payload interactionId uuid hmade, hid⟩
  timedOut w hw hphase :=
    gone_request kind runId payload interactionId uuid h hw (h.timedOut w hw hphase)

end Request

/-! ### Answers -/

/-- The broker after an answer to the entry `item` under `id`. -/
def accept (b : InteractionBroker P V) (id : String) (item : PendingInteraction P V) (value : V) :
    InteractionBroker P V :=
  { b with
    pending := b.pending.set id { item with value := some value }
    events := b.events.set item.event true
    accepted := b.accepted ++ [(item.event, value)] }

/-- A resolve is refused and changes nothing, or sets an event that was not set. -/
theorem resolve_cases (b : InteractionBroker P V) (id : String) (value : V) (runId : String) :
    b.resolve id value runId = (b, false) ∨
      ∃ item, b.pending.get id = some item ∧ b.isSet item.event = false ∧
        b.resolve id value runId = (b.accept id item value, true) := by
  unfold resolve
  split
  · exact Or.inl rfl
  · next item hget =>
      split
      · exact Or.inl rfl
      · split
        · exact Or.inl rfl
        · next hset => exact Or.inr ⟨item, hget, by simpa using hset, rfl⟩

section Accept

variable {id : String} {item : PendingInteraction P V} (value : V)

theorem isSet_accept (h : Sound b) (hget : b.pending.get id = some item) (event : Nat) :
    (b.accept id item value).isSet event = (b.isSet event || event == item.event) := by
  show (b.events.set item.event true)[event]?.getD false = _
  by_cases hsame : event = item.event
  · subst hsame
    have hlt : item.event < b.events.length := by
      rw [h.numbered]
      exact h.event_lt hget
    simp [List.getElem?_set_self hlt]
  · simp [isSet, List.getElem?_set_ne (Ne.symm hsame), hsame]

/-- An answer leaves every entry in its place. -/
theorem get_accept (hget : b.pending.get id = some item) {id' : String}
    {item' : PendingInteraction P V} (h : (b.accept id item value).pending.get id' = some item') :
    ∃ old, b.pending.get id' = some old ∧ old.event = item'.event ∧ old.request = item'.request ∧
      ((id' = id ∧ item'.event = item.event ∧ item'.value = some value) ∨
        (id' ≠ id ∧ old = item')) := by
  have hget' := h
  rw [show (b.accept id item value).pending = b.pending.set _ _ from rfl,
    Python.OrderedDict.get_set] at hget'
  by_cases hid : id' = id
  · rw [if_pos hid, Option.some.injEq] at hget'
    subst hget'
    exact ⟨item, by rw [hid]; exact hget, rfl, rfl, Or.inl ⟨hid, rfl, rfl⟩⟩
  · rw [if_neg hid] at hget'
    exact ⟨item', hget', rfl, rfl, Or.inr ⟨hid, rfl⟩⟩

theorem gone_accept (hget : b.pending.get id = some item) {w : WaitCall V} (hgone : b.Gone w) :
    (b.accept id item value).Gone w := by
  intro item' hget'
  obtain ⟨old, hold, hevent, -⟩ := get_accept value hget hget'
  rw [← hevent]
  exact hgone old hold

theorem Sound.accept (h : Sound b) (hget : b.pending.get id = some item)
    (hset : b.isSet item.event = false) : Sound (b.accept id item value) where
  numbered := by
    show (b.events.set item.event true).length = b.requests.length
    rw [List.length_set]
    exact h.numbered
  own id' item' hget' := by
    obtain ⟨old, hold, hevent, hrequest, -⟩ := get_accept value hget hget'
    rw [← hevent, ← hrequest]
    exact h.own id' old hold
  answered id' item' hget' hset' := by
    obtain ⟨old, hold, hevent, hrequest, hcase⟩ := get_accept value hget hget'
    rcases hcase with ⟨-, hsame, hvalue⟩ | ⟨hne, rfl⟩
    · refine ⟨value, hvalue, ?_⟩
      rw [hsame]
      exact List.mem_append_right _ List.mem_cons_self
    · have hother : old.event ≠ item.event := by
        intro hsame
        obtain ⟨hr, hid⟩ := h.own id item hget
        obtain ⟨hr', hid'⟩ := h.own id' old hold
        rw [hsame, hr, Option.some.injEq] at hr'
        exact hne (by rw [← hid', ← hr', hid])
      rw [isSet_accept value h hget] at hset'
      have hold' : b.isSet old.event = true := by simpa [hother] using hset'
      obtain ⟨v, hv, hmem⟩ := h.answered id' old hold hold'
      exact ⟨v, hv, List.mem_append_left _ hmem⟩
  set event v hv := by
    rw [isSet_accept value h hget]
    rcases List.mem_append.mp hv with hv | hv
    · rw [h.set event v hv]
      rfl
    · rw [List.mem_singleton, Prod.mk.injEq] at hv
      simp [hv.1]
  once := by
    show ((b.accepted ++ [(item.event, value)]).map Prod.fst).Nodup
    rw [List.map_append, List.nodup_append]
    refine ⟨h.once, List.nodup_singleton _, ?_⟩
    intro event hevent other hother hsame
    rw [List.map_singleton, List.mem_singleton] at hother
    obtain ⟨⟨event', v⟩, hmem, rfl⟩ := List.mem_map.mp hevent
    have htrue := h.set event' v hmem
    rw [show event' = item.event from hsame.trans hother, hset] at htrue
    cases htrue
  made := h.made
  timedOut w hw hphase := gone_accept value hget (h.timedOut w hw hphase)

end Accept

/-! ### Waits -/

/-- The phase of a call right after its look-up. -/
def lookUp (b : InteractionBroker P V) (id : String) : WaitPhase V :=
  match b.pending.get id with
  | none => .raised .unknownInteraction
  | some item => .blocked item.event

theorem wait_cases (b : InteractionBroker P V) (request : Nat) (timed : Bool) :
    b.wait request timed = b ∨
      ∃ made, b.requests[request]? = some made ∧
        b.wait request timed =
          { b with
            waits := b.waits ++
              [{ request, interactionId := made.interactionId, timed,
                 phase := b.lookUp made.interactionId }] } := by
  unfold wait
  cases b.requests[request]? with
  | none => exact Or.inl rfl
  | some made => exact Or.inr ⟨made, rfl, rfl⟩

/-- A call comes back from its event, or nothing happens. -/
theorem wake_cases (b : InteractionBroker P V) (call : Nat) (inTime : Bool) :
    b.wake call inTime = b ∨
      ∃ w event, b.waits[call]? = some w ∧ w.phase = .blocked event ∧ b.isSet event = inTime ∧
        b.wake call inTime = b.setPhase call w (if inTime then .signalled else .expired) := by
  unfold wake
  split
  · exact Or.inl rfl
  · next w hw =>
      split
      · next event hphase =>
          split
          · next h => exact Or.inr ⟨w, event, hw, hphase, h.1, rfl⟩
          · exact Or.inl rfl
      · exact Or.inl rfl

/-- What the last section of a call can do. -/
theorem finish_cases (b : InteractionBroker P V) (call : Nat) :
    b.finish call = b ∨
      (∃ w, b.waits[call]? = some w ∧ w.phase = .expired ∧
        b.finish call =
          { b.setPhase call w (.raised .timedOut) with pending := b.pending.pop w.interactionId }) ∨
      (∃ w, b.waits[call]? = some w ∧ w.phase = .signalled ∧
        b.pending.get w.interactionId = none ∧
        b.finish call = b.setPhase call w (.raised (.missingKey w.interactionId))) ∨
      ∃ w item, b.waits[call]? = some w ∧ w.phase = .signalled ∧
        b.pending.get w.interactionId = some item ∧
        b.finish call =
          { b.setPhase call w (.returned item.value) with
            pending := b.pending.pop w.interactionId } := by
  unfold finish
  split
  · exact Or.inl rfl
  · next w hw =>
      split
      · next hphase => exact Or.inr (Or.inl ⟨w, hw, hphase, rfl⟩)
      · next hphase =>
          split
          · next hget => exact Or.inr (Or.inr (Or.inl ⟨w, hw, hphase, hget, rfl⟩))
          · next item hget => exact Or.inr (Or.inr (Or.inr ⟨w, item, hw, hphase, hget, rfl⟩))
      · exact Or.inl rfl

theorem mem_setPhase {call : Nat} {w w' : WaitCall V} {phase : WaitPhase V}
    (h : w' ∈ (b.setPhase call w phase).waits) : w' = { w with phase } ∨ w' ∈ b.waits :=
  (List.mem_or_eq_of_mem_set h).symm

theorem gone_pop {id : String} {w : WaitCall V} (hgone : b.Gone w) :
    ({ b with pending := b.pending.pop id } : InteractionBroker P V).Gone w := by
  intro item hget
  have hget' := hget
  rw [Python.OrderedDict.get_pop] at hget'
  split at hget'
  · cases hget'
  · exact hgone item hget'

namespace Sound

variable {call : Nat} {w : WaitCall V} {phase : WaitPhase V}

theorem wait (h : Sound b) (request : Nat) (timed : Bool) : Sound (b.wait request timed) := by
  rcases b.wait_cases request timed with heq | ⟨made, hmade, heq⟩
  · rw [heq]
    exact h
  rw [heq]
  refine ⟨h.numbered, h.own, h.answered, h.set, h.once, ?_, ?_⟩
  · intro w hw
    rcases List.mem_append.mp hw with hw | hw
    · exact h.made w hw
    · rw [List.mem_singleton] at hw
      subst hw
      exact ⟨made, hmade, rfl⟩
  · intro w hw hphase
    rcases List.mem_append.mp hw with hw | hw
    · exact h.timedOut w hw hphase
    · rw [List.mem_singleton] at hw
      subst hw
      rw [show WaitCall.phase _ = b.lookUp made.interactionId from rfl, lookUp] at hphase
      split at hphase <;> cases hphase

theorem setPhase (h : Sound b) (hw : b.waits[call]? = some w)
    (hphase : phase = .raised .timedOut → b.Gone w) : Sound (b.setPhase call w phase) := by
  have hmem : w ∈ b.waits := List.mem_of_getElem? hw
  refine ⟨h.numbered, h.own, h.answered, h.set, h.once, ?_, ?_⟩
  · intro w' hw'
    rcases mem_setPhase hw' with rfl | hw'
    · exact h.made w hmem
    · exact h.made w' hw'
  · intro w' hw' hphase'
    rcases mem_setPhase hw' with rfl | hw'
    · exact hphase hphase'
    · exact h.timedOut w' hw' hphase'

theorem pop (h : Sound b) (id : String) : Sound { b with pending := b.pending.pop id } := by
  have hkept : ∀ id' item, (b.pending.pop id).get id' = some item →
      b.pending.get id' = some item := by
    intro id' item hget
    rw [Python.OrderedDict.get_pop] at hget
    split at hget
    · cases hget
    · exact hget
  exact ⟨h.numbered, fun id' item hget => h.own id' item (hkept id' item hget),
    fun id' item hget => h.answered id' item (hkept id' item hget), h.set, h.once, h.made,
    fun w hw hphase => gone_pop (h.timedOut w hw hphase)⟩

theorem wake (h : Sound b) (call : Nat) (inTime : Bool) : Sound (b.wake call inTime) := by
  rcases b.wake_cases call inTime with heq | ⟨w, event, hw, -, -, heq⟩
  · rw [heq]
    exact h
  · rw [heq]
    exact h.setPhase hw (by cases inTime <;> intro hphase <;> cases hphase)

theorem finish (h : Sound b) (call : Nat) : Sound (b.finish call) := by
  rcases b.finish_cases call with
    heq | ⟨w, hw, -, heq⟩ | ⟨w, hw, -, -, heq⟩ | ⟨w, item, hw, -, -, heq⟩
  · rw [heq]
    exact h
  · rw [heq]
    -- The entry goes first: after that the call may say that its time ran out.
    refine (h.pop w.interactionId).setPhase hw ?_
    intro _ item hget
    rw [Python.OrderedDict.get_pop_self] at hget
    cases hget
  · rw [heq]
    exact h.setPhase hw (by intro hphase; cases hphase)
  · rw [heq]
    exact (h.pop w.interactionId).setPhase hw (by intro hphase; cases hphase)

theorem resolve (h : Sound b) (id : String) (value : V) (runId : String) :
    Sound (b.resolve id value runId).1 := by
  rcases b.resolve_cases id value runId with heq | ⟨item, hget, hset, heq⟩
  · rw [heq]
    exact h
  · rw [heq]
    exact h.accept value hget hset

end Sound

/-- A round of `cancel_run` is a resolve. -/
theorem cancelNext_cases (b : InteractionBroker P V) (call : Nat) :
    b.cancelNext call = b ∨
      ∃ id value runId cancels,
        b.cancelNext call = { (b.resolve id value runId).1 with cancels := cancels } := by
  unfold cancelNext
  split
  · exact Or.inl rfl
  · next c _ =>
      split
      · exact Or.inl rfl
      · next id rest _ => exact Or.inr ⟨id, c.value, c.runId, _, rfl⟩

theorem Sound.apply (h : Sound b) (i : BrokerStep P V) : Sound (b.apply i) := by
  cases i with
  | request kind runId payload interactionId uuid =>
      exact h.request kind runId payload interactionId uuid
  | resolve id value runId => exact h.resolve id value runId
  | wait request timed => exact h.wait request timed
  | timeout call => exact h.wake call false
  | signal call => exact h.wake call true
  | finish call => exact h.finish call
  | cancelRun runId value => exact h.withCancels _
  | cancelNext call =>
      show Sound (b.cancelNext call)
      rcases b.cancelNext_cases call with heq | ⟨id, value, runId, cancels, heq⟩
      · rw [heq]
        exact h
      · rw [heq]
        exact (h.resolve id value runId).withCancels cancels

theorem sound_run (is : List (BrokerStep P V)) : Sound ((brokerMachine P V).run {} is) :=
  Machine.run_preserves (m := brokerMachine P V) (P := Sound) (fun _ i h => h.apply i) is sound_init

/-! ### After a time-out -/

/-- Request number `n` was made and is not pending. -/
def Withdrawn (b : InteractionBroker P V) (n : Nat) : Prop :=
  Sound b ∧ n < b.requests.length ∧ ∀ id item, b.pending.get id = some item → item.event ≠ n

theorem withdrawn_of_timedOut (h : Sound b) {w : WaitCall V} (hw : w ∈ b.waits)
    (hphase : w.phase = .raised .timedOut) : b.Withdrawn w.request :=
  ⟨h, h.request_lt hw, fun _ _ hget => h.ne_of_gone hw (h.timedOut w hw hphase) hget⟩

/-- A withdrawn request stays withdrawn, and no resolve of it is accepted any more. -/
theorem Withdrawn.resolve {n : Nat} (h : b.Withdrawn n) (id : String) (value : V)
    (runId : String) :
    (b.resolve id value runId).1.Withdrawn n ∧
      ∀ v, (n, v) ∈ (b.resolve id value runId).1.accepted → (n, v) ∈ b.accepted := by
  obtain ⟨hsound, hlt, hne⟩ := h
  rcases b.resolve_cases id value runId with heq | ⟨item, hget, hset, heq⟩
  · rw [heq]
    exact ⟨⟨hsound, hlt, hne⟩, fun v hv => hv⟩
  · rw [heq]
    refine ⟨⟨hsound.accept value hget hset, hlt, ?_⟩, ?_⟩
    · intro id' item' hget'
      obtain ⟨old, hold, hevent, -⟩ := get_accept value hget hget'
      rw [← hevent]
      exact hne id' old hold
    · intro v hv
      rcases List.mem_append.mp hv with hv | hv
      · exact hv
      · rw [List.mem_singleton, Prod.mk.injEq] at hv
        exact absurd hv.1.symm (hne id item hget)

/-- The step only moved calls on, or took entries away. -/
structure Quiet (b b' : InteractionBroker P V) : Prop where
  requests : b'.requests = b.requests
  accepted : b'.accepted = b.accepted
  kept : ∀ id item, b'.pending.get id = some item → b.pending.get id = some item

theorem quiet_of_pending {b' : InteractionBroker P V} (hrequests : b'.requests = b.requests)
    (haccepted : b'.accepted = b.accepted)
    (hpending : b'.pending = b.pending ∨ ∃ id, b'.pending = b.pending.pop id) : Quiet b b' := by
  refine ⟨hrequests, haccepted, ?_⟩
  intro id item hget
  rcases hpending with heq | ⟨id', heq⟩
  · rwa [heq] at hget
  · rw [heq, Python.OrderedDict.get_pop] at hget
    split at hget
    · cases hget
    · exact hget

theorem quiet_wait (b : InteractionBroker P V) (request : Nat) (timed : Bool) :
    Quiet b (b.wait request timed) := by
  rcases b.wait_cases request timed with heq | ⟨made, -, heq⟩
  · exact quiet_of_pending (by rw [heq]) (by rw [heq]) (Or.inl (by rw [heq]))
  · exact quiet_of_pending (by rw [heq]) (by rw [heq]) (Or.inl (by rw [heq]))

theorem quiet_wake (b : InteractionBroker P V) (call : Nat) (inTime : Bool) :
    Quiet b (b.wake call inTime) := by
  rcases b.wake_cases call inTime with heq | ⟨w, event, -, -, -, heq⟩
  · exact quiet_of_pending (by rw [heq]) (by rw [heq]) (Or.inl (by rw [heq]))
  · exact quiet_of_pending (by rw [heq]; rfl) (by rw [heq]; rfl) (Or.inl (by rw [heq]; rfl))

theorem quiet_finish (b : InteractionBroker P V) (call : Nat) : Quiet b (b.finish call) := by
  rcases b.finish_cases call with
    heq | ⟨w, -, -, heq⟩ | ⟨w, -, -, -, heq⟩ | ⟨w, item, -, -, -, heq⟩
  · exact quiet_of_pending (by rw [heq]) (by rw [heq]) (Or.inl (by rw [heq]))
  · exact quiet_of_pending (by rw [heq]; rfl) (by rw [heq]; rfl)
      (Or.inr ⟨w.interactionId, by rw [heq]⟩)
  · exact quiet_of_pending (by rw [heq]; rfl) (by rw [heq]; rfl) (Or.inl (by rw [heq]; rfl))
  · exact quiet_of_pending (by rw [heq]; rfl) (by rw [heq]; rfl)
      (Or.inr ⟨w.interactionId, by rw [heq]⟩)

/-- Every step is a request, a resolve, or quiet. -/
theorem apply_cases (b : InteractionBroker P V) (i : BrokerStep P V) :
    (∃ kind runId payload interactionId uuid,
        b.apply i = b.request kind runId payload interactionId uuid) ∨
      (∃ id value runId cancels,
        b.apply i = { (b.resolve id value runId).1 with cancels := cancels }) ∨
      Quiet b (b.apply i) := by
  cases i with
  | request kind runId payload interactionId uuid =>
      exact Or.inl ⟨kind, runId, payload, interactionId, uuid, rfl⟩
  | resolve id value runId => exact Or.inr (Or.inl ⟨id, value, runId, _, rfl⟩)
  | wait request timed => exact Or.inr (Or.inr (b.quiet_wait request timed))
  | timeout call => exact Or.inr (Or.inr (b.quiet_wake call false))
  | signal call => exact Or.inr (Or.inr (b.quiet_wake call true))
  | finish call => exact Or.inr (Or.inr (b.quiet_finish call))
  | cancelRun runId value => exact Or.inr (Or.inr ⟨rfl, rfl, fun _ _ hget => hget⟩)
  | cancelNext call =>
      rcases b.cancelNext_cases call with heq | ⟨id, value, runId, cancels, heq⟩
      · exact Or.inr (Or.inr (quiet_of_pending (by rw [apply, heq]) (by rw [apply, heq])
          (Or.inl (by rw [apply, heq]))))
      · exact Or.inr (Or.inl ⟨id, value, runId, cancels, heq⟩)

theorem Withdrawn.apply {n : Nat} (h : b.Withdrawn n) (i : BrokerStep P V) :
    (b.apply i).Withdrawn n ∧ ∀ v, (n, v) ∈ (b.apply i).accepted → (n, v) ∈ b.accepted := by
  have hsound : Sound (b.apply i) := h.1.apply i
  rcases b.apply_cases i with
    ⟨kind, runId, payload, interactionId, uuid, heq⟩ | ⟨id, value, runId, cancels, heq⟩ | hquiet
  · rw [heq] at hsound ⊢
    refine ⟨⟨hsound, ?_, ?_⟩, fun v hv => hv⟩
    · show n < (b.requests ++ [_]).length
      rw [List.length_append]
      exact Nat.lt_add_right _ h.2.1
    · intro id item hget
      rcases get_request kind runId payload interactionId uuid hget with ⟨hold, -⟩ | ⟨-, hnew, -⟩
      · exact h.2.2 id item hold
      · have hlt := h.2.1
        omega
  · rw [heq] at hsound ⊢
    obtain ⟨hkept, haccepted⟩ := h.resolve id value runId
    exact ⟨⟨hsound, hkept.2⟩, haccepted⟩
  · refine ⟨⟨hsound, ?_, ?_⟩, ?_⟩
    · rw [hquiet.requests]
      exact h.2.1
    · intro id item hget
      exact h.2.2 id item (hquiet.kept id item hget)
    · intro v hv
      rwa [hquiet.accepted] at hv

theorem Withdrawn.run {n : Nat} (h : b.Withdrawn n) (is : List (BrokerStep P V)) (v : V)
    (hv : (n, v) ∈ ((brokerMachine P V).run b is).accepted) : (n, v) ∈ b.accepted := by
  induction is generalizing b with
  | nil => exact hv
  | cons i rest ih =>
      obtain ⟨hkept, haccepted⟩ := h.apply i
      exact haccepted v (ih hkept hv)

/-! ## When an accepted answer arrives -/

/-- No answer is thrown away by this step: a request does not replace an answered entry,
a timed-out wait does not remove one, and a wait is the first on its request and does
not find another request under its id. -/
def Careful (b : InteractionBroker P V) : BrokerStep P V → Prop
  | .request _ _ _ interactionId uuid =>
      ∀ item, b.pending.get (chosenId interactionId uuid) = some item →
        b.isSet item.event = false
  | .wait request _ =>
      (∀ w ∈ b.waits, w.request ≠ request) ∧
        ∀ made item, b.requests[request]? = some made →
          b.pending.get made.interactionId = some item → item.event = request
  | .finish call =>
      ∀ w, b.waits[call]? = some w → w.phase = .expired →
        ∀ item, b.pending.get w.interactionId = some item → b.isSet item.event = false
  | _ => True

/-- The entry of request number `n` is pending. -/
def Held (b : InteractionBroker P V) (n : Nat) : Prop :=
  ∃ id item, b.pending.get id = some item ∧ item.event = n

/-- A wait took the answer of request number `n`. -/
def Taken (b : InteractionBroker P V) (n : Nat) : Prop :=
  ∃ w ∈ b.waits, w.request = n ∧ ∃ value, w.phase = .returned value

/-- What a call of `wait` knows in its phase. -/
def PhaseOk (b : InteractionBroker P V) (w : WaitCall V) : Prop :=
  match w.phase with
  | .blocked event => event = w.request
  | .expired => True
  | .signalled => b.isSet w.request = true
  | .returned value => b.Gone w ∧ ∃ v, value = some v ∧ (w.request, v) ∈ b.accepted
  | .raised _ => b.Gone w ∧ b.isSet w.request = false

/-- Every answered request is pending until one wait returns its answer. -/
structure Faithful (b : InteractionBroker P V) : Prop where
  sound : Sound b
  single : (b.waits.map WaitCall.request).Nodup
  phases : ∀ w ∈ b.waits, b.PhaseOk w
  held : ∀ n, b.isSet n = true → b.Taken n ∨ b.Held n

theorem faithful_init : Faithful ({} : InteractionBroker P V) where
  sound := sound_init
  single := List.nodup_nil
  phases w h := by cases h
  held n h := by cases h

namespace Faithful

theorem withCancels (h : Faithful b) (cancels : List (CancelCall V)) :
    Faithful { b with cancels := cancels } :=
  ⟨h.sound.withCancels cancels, h.single, h.phases, h.held⟩

theorem eq_of_request (h : Faithful b) {w w' : WaitCall V} (hw : w ∈ b.waits) (hw' : w' ∈ b.waits)
    (hsame : w.request = w'.request) : w = w' :=
  List.inj_on_of_nodup_map h.single hw hw' hsame

/-- The entry of an answered request whose wait has not returned. -/
theorem entry (h : Faithful b) {w : WaitCall V} (hw : w ∈ b.waits)
    (hset : b.isSet w.request = true) (hlive : ∀ value, w.phase ≠ .returned value) :
    ∃ item v, b.pending.get w.interactionId = some item ∧ item.event = w.request ∧
      item.value = some v ∧ (w.request, v) ∈ b.accepted := by
  rcases h.held w.request hset with ⟨w', hw', hsame, value, hphase⟩ | ⟨id, item, hget, hevent⟩
  · have heq := h.eq_of_request hw' hw hsame
    subst heq
    exact absurd hphase (hlive value)
  · have hid := h.sound.id_eq hw hget hevent
    subst hid
    rw [← hevent] at hset
    obtain ⟨v, hvalue, haccepted⟩ := h.sound.answered _ item hget hset
    rw [hevent] at haccepted
    exact ⟨item, v, hget, hevent, hvalue, haccepted⟩

theorem request (h : Faithful b) (kind runId : String) (payload : P) (interactionId uuid : String)
    (hcareful : b.Careful (.request kind runId payload interactionId uuid)) :
    Faithful (b.request kind runId payload interactionId uuid) where
  sound := h.sound.request kind runId payload interactionId uuid
  single := h.single
  phases w hw := by
    have hold := h.phases w hw
    unfold PhaseOk at hold ⊢
    cases hphase : w.phase with
    | blocked event =>
        rw [hphase] at hold
        exact hold
    | expired => trivial
    | signalled =>
        rw [hphase] at hold
        exact (isSet_request kind runId payload interactionId uuid w.request).trans hold
    | returned value =>
        rw [hphase] at hold
        exact ⟨gone_request kind runId payload interactionId uuid h.sound hw hold.1, hold.2⟩
    | raised error =>
        rw [hphase] at hold
        exact ⟨gone_request kind runId payload interactionId uuid h.sound hw hold.1,
          (isSet_request kind runId payload interactionId uuid w.request).trans hold.2⟩
  held n hset := by
    rw [isSet_request kind runId payload interactionId uuid] at hset
    rcases h.held n hset with htaken | ⟨id, item, hget, hevent⟩
    · exact Or.inl htaken
    · have hne : id ≠ chosenId interactionId uuid := by
        intro hid
        subst hid
        have hunset := hcareful item hget
        rw [hevent, hset] at hunset
        cases hunset
      refine Or.inr ⟨id, item, ?_, hevent⟩
      show (b.pending.set (chosenId interactionId uuid) _).get id = some item
      rw [Python.OrderedDict.get_set_ne _ _ hne]
      exact hget

theorem accept (h : Faithful b) {id : String} {item : PendingInteraction P V} (value : V)
    (hget : b.pending.get id = some item) (hset : b.isSet item.event = false) :
    Faithful (b.accept id item value) where
  sound := h.sound.accept value hget hset
  single := h.single
  phases w hw := by
    have hold := h.phases w hw
    unfold PhaseOk at hold ⊢
    cases hphase : w.phase with
    | blocked event =>
        rw [hphase] at hold
        exact hold
    | expired => trivial
    | signalled =>
        rw [hphase] at hold
        show (b.accept id item value).isSet w.request = true
        rw [isSet_accept value h.sound hget, show b.isSet w.request = true from hold]
        rfl
    | returned old =>
        rw [hphase] at hold
        obtain ⟨hgone, v, hv, hmem⟩ := hold
        exact ⟨gone_accept value hget hgone, v, hv, List.mem_append_left _ hmem⟩
    | raised error =>
        rw [hphase] at hold
        obtain ⟨hgone, hunset⟩ := hold
        have hne := h.sound.ne_of_gone hw hgone hget
        refine ⟨gone_accept value hget hgone, ?_⟩
        rw [isSet_accept value h.sound hget, hunset]
        simpa using Ne.symm hne
  held n hset' := by
    rw [isSet_accept value h.sound hget] at hset'
    have hheld : b.Taken n ∨ b.Held n := by
      by_cases hsame : n = item.event
      · exact Or.inr ⟨id, item, hget, hsame.symm⟩
      · exact h.held n (by simpa [hsame] using hset')
    rcases hheld with htaken | ⟨id', item', hget', hevent⟩
    · exact Or.inl htaken
    · refine Or.inr ⟨id', ?_⟩
      show ∃ found, (b.pending.set id _).get id' = some found ∧ found.event = n
      by_cases hid : id' = id
      · subst hid
        rw [hget, Option.some.injEq] at hget'
        subst hget'
        exact ⟨_, Python.OrderedDict.get_set_self _ _ _, hevent⟩
      · exact ⟨item', by rw [Python.OrderedDict.get_set_ne _ _ hid]; exact hget', hevent⟩

theorem resolve (h : Faithful b) (id : String) (value : V) (runId : String) :
    Faithful (b.resolve id value runId).1 := by
  rcases b.resolve_cases id value runId with heq | ⟨item, hget, hset, heq⟩
  · rw [heq]
    exact h
  · rw [heq]
    exact h.accept value hget hset

theorem wait (h : Faithful b) (request : Nat) (timed : Bool)
    (hcareful : b.Careful (.wait request timed)) : Faithful (b.wait request timed) := by
  have hsound := h.sound.wait request timed
  rcases b.wait_cases request timed with heq | ⟨made, hmade, heq⟩
  · rw [heq]
    exact h
  rw [heq] at hsound ⊢
  refine ⟨hsound, ?_, ?_, ?_⟩
  · show ((b.waits ++ [_]).map WaitCall.request).Nodup
    rw [List.map_append, List.nodup_append]
    refine ⟨h.single, List.nodup_singleton _, ?_⟩
    intro n hn other hother hsame
    rw [List.map_singleton, List.mem_singleton] at hother
    obtain ⟨w, hw, rfl⟩ := List.mem_map.mp hn
    exact hcareful.1 w hw (hsame.trans hother)
  · intro w hw
    rcases List.mem_append.mp hw with hw | hw
    · exact h.phases w hw
    · rw [List.mem_singleton] at hw
      subst hw
      unfold PhaseOk lookUp
      cases hget : b.pending.get made.interactionId with
      | some item => exact hcareful.2 made item hmade hget
      | none =>
          refine ⟨fun item hitem => ?_, ?_⟩
          · rw [show InteractionBroker.pending _ = b.pending from rfl, hget] at hitem
            cases hitem
          · -- An answered request is still pending: no wait on it came before.
            show b.isSet request = false
            by_contra hset
            rw [Bool.not_eq_false] at hset
            rcases h.held request hset with ⟨w, hw, hsame, -⟩ | ⟨id, item, hitem, hevent⟩
            · exact hcareful.1 w hw hsame
            · obtain ⟨hrequest, hid⟩ := h.sound.own id item hitem
              rw [hevent, hmade, Option.some.injEq] at hrequest
              rw [← hid, ← hrequest, hget] at hitem
              cases hitem
  · intro n hset
    rcases h.held n hset with ⟨w, hw, hsame, hphase⟩ | hheld
    · exact Or.inl ⟨w, List.mem_append_left _ hw, hsame, hphase⟩
    · exact Or.inr hheld

end Faithful

/-! ### The end of a wait -/

theorem phaseOk_of_pop {b' : InteractionBroker P V} {w : WaitCall V} (h : b.PhaseOk w)
    (hevents : b'.events = b.events) (haccepted : b'.accepted = b.accepted)
    (hkept : ∀ id item, b'.pending.get id = some item → b.pending.get id = some item) :
    b'.PhaseOk w := by
  have hset : ∀ n, b'.isSet n = b.isSet n := fun n => by rw [isSet, hevents, isSet]
  have hgone : b.Gone w → b'.Gone w := fun hgone item hget => hgone item (hkept _ item hget)
  unfold PhaseOk at h ⊢
  cases hphase : w.phase with
  | blocked event =>
      rw [hphase] at h
      exact h
  | expired => trivial
  | signalled =>
      rw [hphase] at h
      exact (hset w.request).trans h
  | returned value =>
      rw [hphase] at h
      show b'.Gone w ∧ ∃ v, value = some v ∧ (w.request, v) ∈ b'.accepted
      rw [haccepted]
      exact ⟨hgone h.1, h.2⟩
  | raised error =>
      rw [hphase] at h
      exact ⟨hgone h.1, (hset w.request).trans h.2⟩

theorem map_request_set {waits : List (WaitCall V)} {call : Nat} {w : WaitCall V}
    (hw : waits[call]? = some w) (phase : WaitPhase V) :
    (waits.set call { w with phase }).map WaitCall.request = waits.map WaitCall.request := by
  apply List.ext_getElem?
  intro j
  rw [List.getElem?_map, List.getElem?_map]
  by_cases hj : call = j
  · subst hj
    rw [List.getElem?_set_self (List.getElem?_eq_some_iff.mp hw).1, hw]
    rfl
  · rw [List.getElem?_set_ne hj]

theorem taken_set {waits : List (WaitCall V)} {call n : Nat} {w : WaitCall V}
    (hw : waits[call]? = some w) (hlive : ∀ value, w.phase ≠ .returned value)
    (phase : WaitPhase V)
    (h : ∃ w' ∈ waits, w'.request = n ∧ ∃ value, w'.phase = .returned value) :
    ∃ w' ∈ waits.set call { w with phase }, w'.request = n ∧ ∃ value, w'.phase = .returned value := by
  obtain ⟨w', hmem, hsame, value, hphase⟩ := h
  obtain ⟨j, hj⟩ := List.mem_iff_getElem?.mp hmem
  have hne : call ≠ j := by
    intro heq
    subst heq
    rw [hw, Option.some.injEq] at hj
    subst hj
    exact hlive value hphase
  refine ⟨w', List.mem_of_getElem? (i := j) ?_, hsame, value, hphase⟩
  rw [List.getElem?_set_ne hne]
  exact hj

/-- A call that was not over moves on, and the entry under its id may go: the answered
requests that lose their entry must have a wait that returned. -/
theorem Faithful.move (h : Faithful b) {b' : InteractionBroker P V} {call : Nat} {w : WaitCall V}
    {phase : WaitPhase V} (hsound : Sound b') (hw : b.waits[call]? = some w)
    (hlive : ∀ value, w.phase ≠ .returned value)
    (hwaits : b'.waits = b.waits.set call { w with phase })
    (hevents : b'.events = b.events) (haccepted : b'.accepted = b.accepted)
    (hkept : ∀ id item, b'.pending.get id = some item → b.pending.get id = some item)
    (hphase : b'.PhaseOk { w with phase })
    (hheld : ∀ n, b.isSet n = true → b.Held n → b'.Taken n ∨ b'.Held n) : Faithful b' where
  sound := hsound
  single := by
    rw [hwaits, map_request_set hw]
    exact h.single
  phases w' hw' := by
    rw [hwaits] at hw'
    rcases List.mem_or_eq_of_mem_set hw' with hw' | rfl
    · exact phaseOk_of_pop (h.phases w' hw') hevents haccepted hkept
    · exact hphase
  held n hset := by
    rw [isSet, hevents] at hset
    rcases h.held n hset with htaken | hn
    · refine Or.inl ?_
      rw [Taken, hwaits]
      exact taken_set hw hlive phase htaken
    · exact hheld n hset hn

theorem Faithful.wake (h : Faithful b) (call : Nat) (inTime : Bool) :
    Faithful (b.wake call inTime) := by
  have hsound := h.sound.wake call inTime
  rcases b.wake_cases call inTime with heq | ⟨w, event, hw, hphase, hset, heq⟩
  · rw [heq]
    exact h
  rw [heq] at hsound ⊢
  refine h.move hsound hw (by rw [hphase]; intro value hvalue; cases hvalue) rfl rfl rfl
    (fun _ _ hget => hget) ?_ (fun n _ hn => Or.inr hn)
  have hown := h.phases w (List.mem_of_getElem? hw)
  rw [PhaseOk, hphase] at hown
  change event = w.request at hown
  cases inTime with
  | false => trivial
  | true =>
      show b.isSet w.request = true
      rw [← hown]
      exact hset

theorem Faithful.finish (h : Faithful b) (call : Nat) (hcareful : b.Careful (.finish call)) :
    Faithful (b.finish call) := by
  have hsound := h.sound.finish call
  rcases b.finish_cases call with
    heq | ⟨w, hw, hphase, heq⟩ | ⟨w, hw, hphase, hnone, -⟩ | ⟨w, item, hw, hphase, hget, heq⟩
  · rw [heq]
    exact h
  · have hlive : ∀ value, w.phase ≠ .returned value := by
      rw [hphase]
      intro value hvalue
      cases hvalue
    have hkept : ∀ id item, (b.pending.pop w.interactionId).get id = some item →
        b.pending.get id = some item := by
      intro id item hget
      rw [Python.OrderedDict.get_pop] at hget
      split at hget
      · cases hget
      · exact hget
    rw [heq] at hsound ⊢
    refine h.move hsound hw hlive rfl rfl rfl hkept ⟨?_, ?_⟩ ?_
    · intro item hget
      rw [show InteractionBroker.pending _ = b.pending.pop w.interactionId from rfl,
        Python.OrderedDict.get_pop_self] at hget
      cases hget
    · -- An answer would still be in the entry, which the careful step saw unanswered.
      show b.isSet w.request = false
      by_contra hset
      rw [Bool.not_eq_false] at hset
      obtain ⟨item, v, hget, hevent, -⟩ := h.entry (List.mem_of_getElem? hw) hset hlive
      have hunset := hcareful w hw hphase item hget
      rw [hevent, hset] at hunset
      cases hunset
    · rintro n hset ⟨id, item, hget, hevent⟩
      refine Or.inr ⟨id, item, ?_, hevent⟩
      show (b.pending.pop w.interactionId).get id = some item
      rw [Python.OrderedDict.get_pop_ne]
      · exact hget
      · intro hid
        subst hid
        have hunset := hcareful w hw hphase item hget
        rw [hevent, hset] at hunset
        cases hunset
  · have hmem := List.mem_of_getElem? hw
    have hset := h.phases w hmem
    rw [PhaseOk, hphase] at hset
    obtain ⟨item, v, hget, -⟩ := h.entry hmem hset
      (by rw [hphase]; intro value hvalue; cases hvalue)
    rw [hnone] at hget
    cases hget
  · have hmem := List.mem_of_getElem? hw
    have hlive : ∀ value, w.phase ≠ .returned value := by
      rw [hphase]
      intro value hvalue
      cases hvalue
    have hset := h.phases w hmem
    rw [PhaseOk, hphase] at hset
    obtain ⟨item', v, hget', hevent, hvalue, haccepted⟩ := h.entry hmem hset hlive
    rw [hget, Option.some.injEq] at hget'
    subst hget'
    have hkept : ∀ id item, (b.pending.pop w.interactionId).get id = some item →
        b.pending.get id = some item := by
      intro id item hget
      rw [Python.OrderedDict.get_pop] at hget
      split at hget
      · cases hget
      · exact hget
    rw [heq] at hsound ⊢
    refine h.move hsound hw hlive rfl rfl rfl hkept ⟨?_, v, hvalue, haccepted⟩ ?_
    · intro item hget
      rw [show InteractionBroker.pending _ = b.pending.pop w.interactionId from rfl,
        Python.OrderedDict.get_pop_self] at hget
      cases hget
    · rintro n - ⟨id, other, hother, hn⟩
      by_cases hid : id = w.interactionId
      · subst hid
        rw [hget, Option.some.injEq] at hother
        subst hother
        refine Or.inl ⟨{ w with phase := .returned item.value }, ?_, hevent.symm.trans hn, _, rfl⟩
        exact List.mem_set (List.getElem?_eq_some_iff.mp hw).1 _
      · refine Or.inr ⟨id, other, ?_, hn⟩
        show (b.pending.pop w.interactionId).get id = some other
        rw [Python.OrderedDict.get_pop_ne _ hid]
        exact hother

theorem Faithful.apply (h : Faithful b) (i : BrokerStep P V) (hcareful : b.Careful i) :
    Faithful (b.apply i) := by
  cases i with
  | request kind runId payload interactionId uuid =>
      exact h.request kind runId payload interactionId uuid hcareful
  | resolve id value runId => exact h.resolve id value runId
  | wait request timed => exact h.wait request timed hcareful
  | timeout call => exact h.wake call false
  | signal call => exact h.wake call true
  | finish call => exact h.finish call hcareful
  | cancelRun runId value => exact h.withCancels _
  | cancelNext call =>
      show Faithful (b.cancelNext call)
      rcases b.cancelNext_cases call with heq | ⟨id, value, runId, cancels, heq⟩
      · rw [heq]
        exact h
      · rw [heq]
        exact (h.resolve id value runId).withCancels cancels

/-- In a run of careful steps no wait on an answered request raises, and one that
returned returned the accepted value; one that is still at its event returns that value
as soon as it wakes.  A request is answered at most once, and never after a wait on it
timed out. -/
theorem accepted_answer_reaches_its_wait {is : List (BrokerStep P V)}
    (h : (brokerMachine P V).Along Careful {} is) :
    (∀ w ∈ ((brokerMachine P V).run {} is).waits, ∀ v,
      (w.request, v) ∈ ((brokerMachine P V).run {} is).accepted →
        (∀ error, w.phase ≠ .raised error) ∧
          (∀ value, w.phase = .returned value → value = some v) ∧
          ∀ call event, ((brokerMachine P V).run {} is).waits[call]? = some w →
            w.phase = .blocked event →
            ((brokerMachine P V).run {} (is ++ [.signal call, .finish call])).waits[call]? =
              some { w with phase := .returned (some v) }) ∧
      (((brokerMachine P V).run {} is).accepted.map Prod.fst).Nodup ∧
      ∀ before after, is = before ++ after →
        ∀ w ∈ ((brokerMachine P V).run {} before).waits, w.phase = .raised .timedOut →
          ∀ v, (w.request, v) ∈ ((brokerMachine P V).run {} is).accepted →
            (w.request, v) ∈ ((brokerMachine P V).run {} before).accepted := by
  have hfaithful : Faithful ((brokerMachine P V).run {} is) :=
    Machine.run_invariant (m := brokerMachine P V) (P := Faithful) (G := Careful)
      (fun _ i hf hg => hf.apply i hg) faithful_init h
  refine ⟨?_, hfaithful.sound.once, ?_⟩
  · simp only [Machine.run_append]
    generalize (brokerMachine P V).run {} is = b at hfaithful
    intro w hw v hv
    have hset := hfaithful.sound.set _ _ hv
    have hphase := hfaithful.phases w hw
    refine ⟨?_, ?_, ?_⟩
    · intro error hraised
      rw [PhaseOk, hraised] at hphase
      rw [hphase.2] at hset
      cases hset
    · intro value hreturned
      rw [PhaseOk, hreturned] at hphase
      obtain ⟨-, v', rfl, hv'⟩ := hphase
      rw [hfaithful.sound.accepted_unique hv' hv]
    · intro call event hcall hblocked
      rw [PhaseOk, hblocked] at hphase
      change event = w.request at hphase
      subst hphase
      obtain ⟨item, v', hget, -, hvalue, hv'⟩ := hfaithful.entry hw hset
        (by rw [hblocked]; intro value hvalue; cases hvalue)
      rw [hfaithful.sound.accepted_unique hv' hv] at hvalue
      have hlt := (List.getElem?_eq_some_iff.mp hcall).1
      show ((b.wake call true).finish call).waits[call]? = _
      have hwake : b.wake call true = b.setPhase call w .signalled := by
        rw [wake, hcall]
        simp only [hblocked, hset, true_or, and_self, if_true]
      have hfound : (b.setPhase call w .signalled).waits[call]? =
          some { w with phase := .signalled } := List.getElem?_set_self hlt
      rw [hwake, finish, hfound]
      simp only
      rw [show (b.setPhase call w .signalled).pending.get w.interactionId = some item from hget]
      simp only [hvalue]
      exact List.getElem?_set_self (by simpa [setPhase] using hlt)
  · rintro before after rfl w hw hphase v hv
    rw [Machine.run_append] at hv
    exact (withdrawn_of_timedOut (sound_run before) hw hphase).run after v hv

theorem accepted_answer_reaches_its_wait_approval :
    (brokerMachine Unit Bool).Along Careful {}
        [.request "approval" "run" () "ask" "", .wait 0 true, .resolve "ask" true "run",
          .signal 0, .finish 0] ∧
      ∀ w ∈ ((brokerMachine Unit Bool).run {}
          [.request "approval" "run" () "ask" "", .wait 0 true, .resolve "ask" true "run",
            .signal 0, .finish 0]).waits,
        w.phase = .returned (some true) := by
  have hcareful : (brokerMachine Unit Bool).Along Careful {}
      [.request "approval" "run" () "ask" "", .wait 0 true, .resolve "ask" true "run",
        .signal 0, .finish 0] := by
    refine ⟨?_, ⟨?_, ?_⟩, trivial, trivial, ?_, trivial⟩
    · intro item hget
      cases hget
    · intro w hw
      cases hw
    · intro made item hmade hget
      cases hmade
      cases hget
      rfl
    · intro w hw hphase
      cases hw
      cases hphase
  refine ⟨hcareful, ?_⟩
  intro w hw
  have hreturned : w.phase = .returned (some true) := by
    rw [List.mem_singleton.mp hw]
  have hanswered : (w.request, true) ∈ ((brokerMachine Unit Bool).run {}
      [.request "approval" "run" () "ask" "", .wait 0 true, .resolve "ask" true "run",
        .signal 0, .finish 0]).accepted := by
    rw [List.mem_singleton.mp hw]
    decide
  have harrives := (accepted_answer_reaches_its_wait hcareful).1 w hw true hanswered
  rw [hreturned, harrives.2.1 (some true) hreturned]

/-- The answer is accepted after the time-out was noticed and before the entry is
removed. -/
theorem accepted_answer_times_out :
    ∃ w ∈ ((brokerMachine Unit Bool).run {}
        [.request "approval" "run" () "ask" "", .wait 0 true, .timeout 0,
          .resolve "ask" true "run", .finish 0]).waits,
      (w.request, true) ∈ ((brokerMachine Unit Bool).run {}
        [.request "approval" "run" () "ask" "", .wait 0 true, .timeout 0,
          .resolve "ask" true "run", .finish 0]).accepted ∧
      w.phase = .raised .timedOut := by
  decide

end InteractionBroker

end Spine
end CodeCub

import CodeCub.Pico.Places

/-!
# The scheduler of all lanes

Lanes are created on demand and never given back: a lane that is reaped leaves the
registry, but its handles keep it.  Lanes are the positions in `lanes`, and a turn handle
is the position of its lane with the number of its future.

A shutdown seals the scheduler at once; its task drains the lanes, stops the reaper, waits
for the running turns, cancels those that are left and waits for them.  Every caller of
`shutdown` waits for that one task behind a barrier that no cancellation passes.
-/

namespace CodeCub
namespace Pico

structure LaneObject (O T : Type) where
  conversation : String
  registered : Bool := true
  lane : Lane O T := {}
  deriving DecidableEq, Repr

/-- Where the task of `_finish_shutdown` is; turns are named by lane and future. -/
inductive Shutdown where
  | created
  | stopping
  | grace (running : List (Nat × Nat))
  | surviving (survivors : List (Nat × Nat))
  | done
  deriving DecidableEq, Repr

/-- A call of `shutdown` in `finish_barrier`. -/
structure Caller where
  cancelled : Bool := false
  ended : Bool := false
  deriving DecidableEq, Repr

/-- `takenAtDrain` is how many turns each lane had taken off its queue at the drain. -/
structure Scheduler (O T : Type) where
  lanes : List (LaneObject O T) := []
  draining : Bool := false
  reaper : Bool := false
  shutdown : Option Shutdown := none
  callers : List Caller := []
  takenAtDrain : Option (List Nat) := none
  deriving DecidableEq, Repr

def effectiveBusy (req : TurnRequest) : BusyPolicy :=
  if req.busy = .append ∨ req.origin = .user then req.busy else .append

def conversationId (req : TurnRequest) : String :=
  req.conversation.getD (req.channel ++ ":" ++ req.chatId)

/-- `SchedulerDrainingError`. -/
inductive SubmitError where
  | draining
  deriving DecidableEq, Repr

namespace Scheduler

-- `expired since now` is `now - since >= _DEFAULT_IDLE_TTL`.
variable {O T : Type} (expired : T → T → Bool) (s : Scheduler O T)

def laneIndex (conversation : String) : Option Nat :=
  s.lanes.findIdx? fun object => object.registered && object.conversation = conversation

def onLane (i : Nat) (f : Lane O T → Lane O T) : Scheduler O T :=
  { s with lanes := s.lanes.modify i fun object => { object with lane := f object.lane } }

def onRegistered (f : Lane O T → Lane O T) : Scheduler O T :=
  { s with lanes := s.lanes.map fun object =>
      if object.registered then { object with lane := f object.lane } else object }

/-- The lane of a conversation, created when there is none. -/
def ensureLane (conversation : String) : Scheduler O T × Nat :=
  match s.laneIndex conversation with
  | some i => (s, i)
  | none => ({ s with lanes := s.lanes ++ [{ conversation }] }, s.lanes.length)

def submit (req : TurnRequest) : Scheduler O T × Except SubmitError (Nat × Nat) :=
  if s.draining then (s, .error .draining)
  else
    let (s, i) := s.ensureLane (conversationId req)
    let fut := ((s.lanes[i]?).map fun object => object.lane.issued).getD 0
    ({ s.onLane i fun lane => lane.submit req (effectiveBusy req) with reaper := true },
      .ok (i, fut))

def cancelConversation (conversation : String) : Scheduler O T :=
  match s.laneIndex conversation with
  | some i => s.onLane i Lane.cancel
  | none => s

def sweep (now : T) : Scheduler O T :=
  { s with lanes := s.lanes.map fun object =>
      match object.lane.idleSince with
      | some since => if expired since now then { object with registered := false } else object
      | none => object }

/-! ## Shutdown -/

/-- The turns that are in flight. -/
def runningTurns : List (Nat × Nat) :=
  s.lanes.zipIdx.filterMap fun (object, i) =>
    if object.registered then object.lane.turn.map fun turn => (i, turn.fut) else none

def isResolved (handle : Nat × Nat) : Bool :=
  match s.lanes[handle.1]? with
  | some object => object.lane.isResolved handle.2
  | none => false

/-- The last phase: what is still running is cancelled. -/
def cascade (running : List (Nat × Nat)) : Scheduler O T :=
  let s := s.onRegistered Lane.cancelRunning
  let survivors := running.filter fun handle => !s.isResolved handle
  { s with shutdown := some (if survivors = [] then .done else .surviving survivors) }

def collect : Scheduler O T :=
  if s.runningTurns = [] then s.cascade []
  else { s with shutdown := some (.grace s.runningTurns) }

/-- The second phase: the queues and mailboxes are emptied. -/
def drain : Scheduler O T :=
  let s := s.onRegistered Lane.drainPending
  { s with takenAtDrain := some (s.lanes.map fun object => object.lane.taken) }

/-- A step of `_finish_shutdown`, as far as its next await. -/
def finishShutdown : Scheduler O T :=
  match s.shutdown with
  | some .created =>
      if s.reaper then { s.drain with shutdown := some .stopping } else s.drain.collect
  | some .stopping => if s.reaper then s else s.collect
  | some (.grace running) => s.cascade running
  | some (.surviving survivors) =>
      if survivors.all s.isResolved then { s with shutdown := some .done } else s
  | _ => s

/-- The first caller seals the scheduler and creates the task. -/
def callShutdown : Scheduler O T :=
  let s := if s.shutdown.isNone then { s with draining := true, shutdown := some .created } else s
  { s with callers := s.callers ++ [{}] }

/-- A caller comes out of `shield`: by its own cancellation, or because the task is done.
It goes back unless the task is done. -/
def barrier (k : Nat) (interrupted : Bool) : Scheduler O T :=
  { s with callers := s.callers.modify k fun caller =>
      if caller.ended then caller
      else
        { cancelled := caller.cancelled || interrupted
          ended := s.shutdown = some .done } }

end Scheduler

/-- The steps that the tasks of a lane make by themselves. -/
def LaneStep.isTask {O T : Type} : LaneStep O T → Bool
  | .submit _ _ => false
  | .cancelTurn _ => false
  | .cancelRunning => false
  | .drainPending => false
  | _ => true

inductive SchedulerStep (O T : Type) where
  | submit (req : TurnRequest)
  | cancelHandle (i fut : Nat)
  | cancelConversation (conversation : String)
  | sweep (now : T)
  | task (i : Nat) (step : LaneStep O T)
  | callShutdown
  | finishShutdown
  | reaperEnds
  | barrier (k : Nat) (interrupted : Bool)
  deriving DecidableEq, Repr

def Scheduler.step {O T : Type} (expired : T → T → Bool) (s : Scheduler O T) :
    SchedulerStep O T → Scheduler O T
  | .submit req => (s.submit req).1
  | .cancelHandle i fut => s.onLane i fun lane => lane.cancelTurn fut
  | .cancelConversation conversation => s.cancelConversation conversation
  | .sweep now => s.sweep expired now
  | .task i step => if step.isTask then s.onLane i fun lane => lane.step step else s
  | .callShutdown => s.callShutdown
  | .finishShutdown => s.finishShutdown
  | .reaperEnds => { s with reaper := false }
  | .barrier k interrupted => s.barrier k interrupted

def schedulerMachine (O : Type) {T : Type} (expired : T → T → Bool) :
    Machine (Scheduler O T) (SchedulerStep O T) Unit where
  step s i := (s.step expired i, ())

/-! ## Silent lanes -/

namespace Lane

variable {O T : Type} {lane : Lane O T}

/-- The worker of a silent lane has gone, and no turn is left. -/
theorem Inv.silent (h : lane.Inv) (hidle : lane.idleSince.isSome = true) :
    lane.worker = .idle ∧ lane.turn = none := by
  have hworker := h.quiet hidle
  refine ⟨hworker, ?_⟩
  cases hturn : lane.turn with
  | none => rfl
  | some turn =>
      have hawaiting := h.awaited.mp (by rw [hturn]; rfl)
      rw [hworker] at hawaiting
      cases hawaiting

/-- A silent lane has no tasks. -/
theorem Inv.silent_task (h : lane.Inv) (hidle : lane.idleSince.isSome = true) {i : LaneStep O T}
    (htask : i.isTask = true) : lane.step i = lane := by
  obtain ⟨hworker, hturn⟩ := h.silent hidle
  cases i with
  | submit req policy => cases htask
  | cancelTurn fut => cases htask
  | cancelRunning => cases htask
  | drainPending => cases htask
  | worker now => rw [Lane.step, Lane.runWorker, hworker, hturn]
  | _ => simp only [Lane.step, hturn]

theorem cancelTurn_idleSince (lane : Lane O T) (fut : Nat) :
    (lane.cancelTurn fut).idleSince = lane.idleSince := by
  rw [cancelTurn]
  split
  · rfl
  · split
    · rw [resolve]
      split <;> rfl
    · split
      · rw [resolve]
        split <;> rfl
      · split <;> rfl

theorem resolveAll_idleSince (lane : Lane O T) (futs : List Nat) (outcome : Option O)
    (resolver : Resolver) : (lane.resolveAll futs outcome resolver).idleSince = lane.idleSince := by
  induction futs generalizing lane with
  | nil => rfl
  | cons fut rest ih =>
      show ((lane.resolve fut outcome resolver).resolveAll rest outcome resolver).idleSince = _
      rw [ih, resolve]
      split <;> rfl

theorem Inv.cancel (h : lane.Inv) : lane.cancel.Inv := h.cancelTask.drainPending

theorem cancel_idleSince (lane : Lane O T) : lane.cancel.idleSince = lane.idleSince :=
  resolveAll_idleSince _ _ _ _

end Lane

/-! ## Lanes in the registry -/

namespace Scheduler

variable {O T : Type} {expired : T → T → Bool} {s : Scheduler O T}

/-- The registered conversations. -/
def conversations (s : Scheduler O T) : List String :=
  (s.lanes.filter LaneObject.registered).map LaneObject.conversation

structure Inv (s : Scheduler O T) : Prop where
  lanes : ∀ object ∈ s.lanes, object.lane.Inv
  retired : ∀ object ∈ s.lanes, object.registered = false →
    object.lane.idleSince.isSome = true
  distinct : s.conversations.Nodup

theorem mem_onLane {i : Nat} {f : Lane O T → Lane O T} {object : LaneObject O T}
    (h : object ∈ (s.onLane i f).lanes) :
    object ∈ s.lanes ∨ ∃ old, s.lanes[i]? = some old ∧ object = { old with lane := f old.lane } := by
  obtain ⟨j, hj⟩ := List.getElem?_of_mem h
  simp only [onLane, List.getElem?_modify] at hj
  split at hj
  · next hij =>
      obtain ⟨old, hold, hobject⟩ := Option.map_eq_some_iff.mp hj
      exact Or.inr ⟨old, hij ▸ hold, hobject.symm⟩
  · left
    simp only [id_map'] at hj
    exact List.mem_of_getElem? hj

theorem conversations_onLane (s : Scheduler O T) (i : Nat) (f : Lane O T → Lane O T) :
    (s.onLane i f).conversations = s.conversations := by
  simp only [conversations, onLane]
  induction s.lanes generalizing i with
  | nil => simp
  | cons object rest ih =>
      cases i with
      | zero =>
          rw [List.modify_zero_cons, List.filter_cons, List.filter_cons]
          cases object.registered <;> rfl
      | succ i =>
          rw [List.modify_succ_cons, List.filter_cons, List.filter_cons]
          cases object.registered with
          | true => simpa using ih i
          | false => simpa using ih i

theorem Inv.onLane (h : s.Inv) {i : Nat} {f : Lane O T → Lane O T}
    (hf : ∀ object, s.lanes[i]? = some object → (f object.lane).Inv ∧
      (object.registered = false → (f object.lane).idleSince.isSome = true)) :
    (s.onLane i f).Inv := by
  refine ⟨?_, ?_, ?_⟩
  · intro object hobject
    rcases mem_onLane hobject with hold | ⟨old, hold, rfl⟩
    · exact h.lanes object hold
    · exact (hf old hold).1
  · intro object hobject hretired
    rcases mem_onLane hobject with hold | ⟨old, hold, rfl⟩
    · exact h.retired object hold hretired
    · exact (hf old hold).2 hretired
  · rw [conversations_onLane]
    exact h.distinct

theorem Inv.onRegistered (h : s.Inv) {f : Lane O T → Lane O T}
    (hf : ∀ object ∈ s.lanes, (f object.lane).Inv) : (s.onRegistered f).Inv := by
  refine ⟨?_, ?_, ?_⟩
  · intro object hobject
    obtain ⟨old, hold, rfl⟩ := List.mem_map.mp hobject
    split
    · exact hf old hold
    · exact h.lanes old hold
  · intro object hobject hretired
    obtain ⟨old, hold, rfl⟩ := List.mem_map.mp hobject
    split at hretired
    · next hregistered =>
        rw [show ({ old with lane := f old.lane } : LaneObject O T).registered = old.registered
          from rfl, hregistered] at hretired
        cases hretired
    · next hregistered =>
        rw [if_neg hregistered]
        exact h.retired old hold hretired
  · have hsame : (s.onRegistered f).conversations = s.conversations := by
      simp only [conversations, Scheduler.onRegistered]
      induction s.lanes with
      | nil => rfl
      | cons object rest ih =>
          rw [List.map_cons, List.filter_cons, List.filter_cons]
          cases hregistered : object.registered with
          | true => simpa [hregistered] using ih
          | false => simpa [hregistered] using ih
    rw [hsame]
    exact h.distinct

theorem Inv.sweep (h : s.Inv) (now : T) : (s.sweep expired now).Inv := by
  refine ⟨?_, ?_, ?_⟩
  · intro object hobject
    obtain ⟨old, hold, rfl⟩ := List.mem_map.mp hobject
    split
    · split <;> exact h.lanes old hold
    · exact h.lanes old hold
  · intro object hobject hretired
    obtain ⟨old, hold, rfl⟩ := List.mem_map.mp hobject
    split
    · next since hsince =>
        split
        · rw [hsince]
          rfl
        · rw [hsince]
          rfl
    · next hnone =>
        rw [hnone] at hretired
        exact h.retired old hold hretired
  · refine List.Nodup.sublist ?_ h.distinct
    simp only [conversations, Scheduler.sweep]
    induction s.lanes with
    | nil => exact List.Sublist.refl _
    | cons object rest ih =>
        rw [List.map_cons, List.filter_cons, List.filter_cons]
        cases hregistered : object.registered with
        | true =>
            split
            · split
              · next since hsince _ =>
                  simp only [Bool.false_eq_true, if_false, if_true, List.map_cons]
                  exact ih.trans (List.sublist_cons_self _ _)
              · simp only [if_true, List.map_cons]
                exact ih.cons_cons _
            · simp only [hregistered, if_true, List.map_cons]
              exact ih.cons_cons _
        | false =>
            split
            · split
              · simpa using ih
              · simpa [hregistered] using ih
            · simpa [hregistered] using ih

/-- The lane that a conversation is routed to is registered. -/
theorem laneIndex_spec {conversation : String} {i : Nat}
    (h : s.laneIndex conversation = some i) :
    ∃ object, s.lanes[i]? = some object ∧ object.registered = true ∧
      object.conversation = conversation := by
  obtain ⟨hlt, hmatch, -⟩ := List.findIdx?_eq_some_iff_getElem.mp h
  refine ⟨s.lanes[i], List.getElem?_eq_getElem hlt, ?_⟩
  simpa using hmatch

theorem not_mem_conversations {conversation : String} (h : s.laneIndex conversation = none) :
    conversation ∉ s.conversations := by
  intro hmem
  obtain ⟨object, hobject, hsame⟩ := List.mem_map.mp hmem
  obtain ⟨hlanes, hregistered⟩ := List.mem_filter.mp hobject
  have hnot := List.findIdx?_eq_none_iff.mp h object hlanes
  simp [hregistered, hsame] at hnot

theorem Inv.ensureLane (h : s.Inv) (conversation : String) :
    (s.ensureLane conversation).1.Inv ∧
      ∃ object, (s.ensureLane conversation).1.lanes[(s.ensureLane conversation).2]? =
        some object ∧ object.registered = true := by
  rw [Scheduler.ensureLane]
  cases hindex : s.laneIndex conversation with
  | some i =>
      obtain ⟨object, hobject, hregistered, -⟩ := laneIndex_spec hindex
      exact ⟨h, object, hobject, hregistered⟩
  | none =>
      refine ⟨⟨?_, ?_, ?_⟩, { conversation }, ?_, rfl⟩
      · intro object hobject
        rcases List.mem_append.mp hobject with hold | hnew
        · exact h.lanes object hold
        · rw [List.mem_singleton.mp hnew]
          exact Lane.inv_init
      · intro object hobject hretired
        rcases List.mem_append.mp hobject with hold | hnew
        · exact h.retired object hold hretired
        · rw [List.mem_singleton.mp hnew] at hretired
          cases hretired
      · rw [conversations, List.filter_append, List.map_append]
        rw [List.nodup_append]
        refine ⟨h.distinct, List.nodup_singleton _, ?_⟩
        intro a ha b hb hsame
        have hb : b = conversation := by simpa using hb
        exact not_mem_conversations hindex (hb ▸ hsame ▸ ha)
      · simp

theorem Inv.submit (h : s.Inv) (req : TurnRequest) : (s.submit req).1.Inv := by
  rw [Scheduler.submit]
  split
  · exact h
  · obtain ⟨hensured, object, hobject, hregistered⟩ := h.ensureLane (conversationId req)
    have hsubmitted : ((s.ensureLane (conversationId req)).1.onLane
        (s.ensureLane (conversationId req)).2 fun lane => lane.submit req (effectiveBusy req)).Inv := by
      apply hensured.onLane
      intro other hother
      refine ⟨(hensured.lanes other (List.mem_of_getElem? hother)).submit req _, ?_⟩
      intro hretired
      rw [hobject, Option.some.injEq] at hother
      rw [← hother, hregistered] at hretired
      cases hretired
    exact { hsubmitted with }

theorem Inv.cancelRunning (h : s.Inv) : (s.onRegistered Lane.cancelRunning).Inv :=
  h.onRegistered fun object hobject => (h.lanes object hobject).cancelTask

theorem Inv.drain (h : s.Inv) : s.drain.Inv := by
  have hdrained := h.onRegistered fun object hobject => (h.lanes object hobject).drainPending
  exact { hdrained with }

theorem Inv.cascade (h : s.Inv) (running : List (Nat × Nat)) : (s.cascade running).Inv :=
  { h.cancelRunning with }

theorem Inv.collect (h : s.Inv) : s.collect.Inv := by
  rw [Scheduler.collect]
  split
  · exact h.cascade []
  · exact { h with }

theorem Inv.finishShutdown (h : s.Inv) : s.finishShutdown.Inv := by
  rw [Scheduler.finishShutdown]
  split
  · split
    · exact { h.drain with }
    · exact h.drain.collect
  · split
    · exact h
    · exact h.collect
  · next running _ => exact h.cascade running
  · split
    · exact { h with }
    · exact h
  · exact h

theorem Inv.callShutdown (h : s.Inv) : s.callShutdown.Inv := by
  simp only [Scheduler.callShutdown]
  split
  · exact { h with }
  · exact { h with }

theorem Inv.step (h : s.Inv) (i : SchedulerStep O T) : (s.step expired i).Inv := by
  cases i with
  | submit req => exact h.submit req
  | cancelHandle i fut =>
      rw [Scheduler.step]
      apply h.onLane
      intro object hobject
      have hmem := List.mem_of_getElem? hobject
      refine ⟨(h.lanes object hmem).cancelTurn fut, ?_⟩
      rw [Lane.cancelTurn_idleSince]
      exact h.retired object hmem
  | cancelConversation conversation =>
      simp only [Scheduler.step, Scheduler.cancelConversation]
      split
      · apply h.onLane
        intro object hobject
        have hmem := List.mem_of_getElem? hobject
        refine ⟨(h.lanes object hmem).cancel, ?_⟩
        rw [Lane.cancel_idleSince]
        exact h.retired object hmem
      · exact h
  | sweep now => exact h.sweep now
  | task i step =>
      simp only [Scheduler.step]
      split
      · next htask =>
          apply h.onLane
          intro object hobject
          have hmem := List.mem_of_getElem? hobject
          refine ⟨(h.lanes object hmem).step step, ?_⟩
          intro hretired
          have hidle := h.retired object hmem hretired
          rw [(h.lanes object hmem).silent_task hidle htask]
          exact hidle
      · exact h
  | callShutdown => exact h.callShutdown
  | finishShutdown => exact h.finishShutdown
  | reaperEnds => exact { h with }
  | barrier k interrupted => exact { h with }

variable (expired) in
theorem inv_run (is : List (SchedulerStep O T)) : ((schedulerMachine O expired).run {} is).Inv := by
  refine Machine.run_preserves (m := schedulerMachine O expired) (P := Inv)
    (fun _ i h => h.step i) is ?_
  refine ⟨?_, ?_, List.nodup_nil⟩
  · intro object hobject
    cases hobject
  · intro object hobject
    cases hobject

/-- A turn in flight keeps its lane registered. -/
theorem Inv.registered (h : s.Inv) {object : LaneObject O T} (hobject : object ∈ s.lanes)
    (hturn : object.lane.turn.isSome = true) : object.registered = true := by
  cases hregistered : object.registered with
  | true => rfl
  | false =>
      have hsilent := (h.lanes object hobject).silent (h.retired object hobject hregistered)
      rw [hsilent.2] at hturn
      cases hturn

/-- Registered lanes have different conversations. -/
theorem eq_of_conversation {lanes : List (LaneObject O T)}
    (h : ((lanes.filter LaneObject.registered).map LaneObject.conversation).Nodup)
    {i j : Nat} {a b : LaneObject O T} (ha : lanes[i]? = some a) (hb : lanes[j]? = some b)
    (hra : a.registered = true) (hrb : b.registered = true)
    (hsame : a.conversation = b.conversation) : i = j := by
  induction lanes generalizing i j with
  | nil => simp at ha
  | cons object rest ih =>
      have hrest : ((rest.filter LaneObject.registered).map LaneObject.conversation).Nodup :=
        h.sublist (((List.sublist_cons_self object rest).filter _).map _)
      have hlater : ∀ {k : Nat} {other : LaneObject O T}, rest[k]? = some other →
          other.registered = true → object.registered = true →
            other.conversation ≠ object.conversation := by
        intro k other hother hr hobject heq
        rw [List.filter_cons, if_pos hobject, List.map_cons, List.nodup_cons] at h
        apply h.1
        rw [← heq]
        exact List.mem_map_of_mem (List.mem_filter.mpr ⟨List.mem_of_getElem? hother, hr⟩)
      cases i with
      | zero =>
          cases j with
          | zero => rfl
          | succ j =>
              rw [List.getElem?_cons_zero, Option.some.injEq] at ha
              rw [List.getElem?_cons_succ] at hb
              subst ha
              exact absurd hsame.symm (hlater hb hrb hra)
      | succ i =>
          rw [List.getElem?_cons_succ] at ha
          cases j with
          | zero =>
              rw [List.getElem?_cons_zero, Option.some.injEq] at hb
              subst hb
              exact absurd hsame (hlater ha hra hrb)
          | succ j =>
              rw [List.getElem?_cons_succ] at hb
              exact congrArg (· + 1) (ih hrest ha hb)

end Scheduler

namespace Lane

variable {O T : Type} {lane : Lane O T}

/-- `runner.run` is active. -/
def runnerActive (lane : Lane O T) : Prop :=
  ∃ turn, lane.turn = some turn ∧ turn.phase = .running

/-- The current turn and the queue behind it. -/
def line (lane : Lane O T) : List (TurnRequest × Nat) :=
  (lane.turn.map fun turn => (turn.req, turn.fut)).toList ++ lane.pending

theorem takeNext_line (hturn : lane.turn = none) (now : T) :
    (lane.takeNext now).line = lane.pending := by
  rw [takeNext]
  split
  · next hpending => simp [line, hturn, hpending]
  · next hpending => simp [line, hpending]

/-- Something that was dropped from the queue or the mailbox was not handed to the runner. -/
theorem Inv.dropped_not_handed (h : lane.Inv) {r : Resolution O} (hr : r ∈ lane.resolved)
    (hdropped : r.resolver = .dropped) : r.fut ∉ lane.handed.flatten := by
  intro hmem
  rcases h.handed r.fut hmem with hlive | ⟨other, hother, hfut, hresolver⟩
  · exact h.unresolved (mem_waiting_of_turnFuts hlive) (List.mem_map_of_mem hr)
  · have hsame := List.inj_on_of_nodup_map h.resolved_nodup hother hr hfut
    rw [hsame] at hresolver
    exact hresolver hdropped

/-- When the worker takes a finished turn off, the mailbox goes behind the queue. -/
theorem worker_line (hworker : lane.worker = .awaiting) {turn : Turn O}
    (hturn : lane.turn = some turn) {result : TaskResult O} (hdone : turn.phase = .done result)
    (now : T) :
    (lane.step (.worker now)).mailbox = [] ∧
      (lane.step (.worker now)).line = lane.pending ++ lane.mailbox := by
  have hstep : lane.step (.worker now) = (lane.closeTurn turn result).takeNext now := by
    simp only [Lane.step, Lane.runWorker, hworker, hturn, hdone]
  have hclosed : (lane.closeTurn turn result).pending = lane.pending ++ lane.mailbox := by
    simp only [closeTurn, resolve]
    split <;> rfl
  rw [hstep]
  refine ⟨?_, ?_⟩
  · rw [takeNext]
    split <;> rfl
  · rw [takeNext_line rfl, hclosed]

end Lane

namespace Scheduler

variable {O T : Type} {expired : T → T → Bool}

end Scheduler

end Pico
end CodeCub

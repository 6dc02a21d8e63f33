import CodeCub.Spine.LaneSafety

/-!
# Injected turns

The mailbox is emptied from two sides: the running turn drains it, and a finishing
completion thread appends what is left to the pending queue.  The completion is
split in two here, so that injections, drains and submissions may fall between the
settling of a future and the release of the lane.
-/

namespace CodeCub
namespace Spine

open Tooling (Exn)

/-- The steps of a lane with the two halves of a completion told apart. -/
inductive FineStep
  | call (step : LaneStep)
  | resolve (i : Nat) (result : Except Exn TurnOutcome)
  | release (i : Nat) (newRunId : String)

/-- How a request leaves the mailbox. -/
inductive Delivery
  | drained
  | fellBack
  deriving DecidableEq, Repr

namespace Lane

variable {lane lane' : Lane}

def fineStep (lane : Lane) : FineStep → Lane × Except Exn Response
  | .call step => lane.step step
  | .resolve i result => lane.resolve i result
  | .release i newRunId => lane.release i newRunId

def fine : Machine Lane FineStep (Except Exn Response) where
  step := fineStep

/-- The request that a step's `inject` accepted. -/
def acceptedBy (lane : Lane) (step : FineStep) : List TurnRequest :=
  match step, fine.out lane step with
  | .call (.inject request), .ok (.flag true) => [request]
  | _, _ => []

/-- The requests that a step took out of the mailbox. -/
def deliveredBy (lane : Lane) (step : FineStep) : List (Delivery × TurnRequest) :=
  match step, fine.out lane step with
  | .call .drainInjections, .ok (.requests items) => items.map fun request => (.drained, request)
  | _, .ok (.requests items) => items.map fun request => (.fellBack, request)
  | _, _ => []

/-- The injections accepted in a run, oldest first. -/
def accepted (lane : Lane) : List FineStep → List TurnRequest
  | [] => []
  | step :: steps => lane.acceptedBy step ++ accepted (fine.next lane step) steps

/-- The deliveries of a run, oldest first. -/
def delivered (lane : Lane) : List FineStep → List (Delivery × TurnRequest)
  | [] => []
  | step :: steps => lane.deliveredBy step ++ delivered (fine.next lane step) steps

/-- Every request that was started or is pending, with its future: the started
ones in the order they started, then the pending ones in the order they will. -/
def queue (lane : Lane) : List (TurnRequest × Nat) :=
  lane.runs.map (fun d => (d.request, d.outcome)) ++ lane.pending

/-- The futures of the started requests, in starting order. -/
def started (lane : Lane) : List Nat := lane.runs.map Dispatched.outcome

/-- A queue in which one new request was put somewhere. -/
def Inserts (lane lane' : Lane) : Prop :=
  ∃ request front back, lane.queue = front ++ back ∧
    lane'.queue = front ++ (request, lane.outcomes.length) :: back ∧
    lane'.outcomes.length = lane.outcomes.length + 1

/-- A queue that a step left alone. -/
def SameQueue (lane lane' : Lane) : Prop :=
  lane'.queue = lane.queue ∧ lane'.outcomes.length = lane.outcomes.length

/-- The mailbox emptied onto the end of the queue. -/
def FallsBack (lane lane' : Lane) : Prop :=
  lane'.injections = lane.injections.drainForFallback.2 ∧
    lane'.queue = lane.queue ++ lane.fallbackEntries lane.injections.items ∧
    lane'.outcomes.length = lane.outcomes.length + lane.injections.items.length

theorem andStart_ok {lane lane' lane'' : Lane} {result : Response} {newRunId : String}
    (h : lane'.startNext newRunId = .ok lane'') :
    lane.andStart result newRunId lane' = (lane'', .ok result) := by
  rw [andStart, h]

theorem andStart_queue (lane lane' : Lane) (result : Response) (newRunId : String) :
    ∃ lane'', lane.andStart result newRunId lane' = (lane'', .ok result) ∧
      lane''.queue = lane'.queue ∧ lane''.outcomes = lane'.outcomes ∧
      lane''.injections = lane'.injections := by
  rcases startNext_cases lane' newRunId with
    ⟨heq, -⟩ | ⟨request, outcome, pending, run, -, hpending, -, -, heq⟩
  · exact ⟨lane', by simp [andStart, heq], rfl, rfl, rfl⟩
  · exact ⟨_, andStart_ok heq, by simp [queue, hpending], rfl, rfl⟩

theorem submit_queue (lane : Lane) (request : TurnRequest) (front : Bool) (newRunId : String) :
    ∃ lane', lane.submit request front newRunId =
        (lane', .ok (.future lane.outcomes.length)) ∧
      lane'.injections = lane.injections ∧ Inserts lane lane' := by
  obtain ⟨lane', heq, hqueue, houtcomes, hmailbox⟩ := andStart_queue lane
    { lane with
      pending := if front then (request, lane.outcomes.length) :: lane.pending
        else lane.pending ++ [(request, lane.outcomes.length)]
      outcomes := lane.outcomes ++ [none] } (.future lane.outcomes.length) newRunId
  refine ⟨lane', heq, hmailbox, ?_⟩
  have hlength : lane'.outcomes.length = lane.outcomes.length + 1 := by
    rw [houtcomes]
    simp
  cases front with
  | true =>
      exact ⟨request, lane.runs.map (fun d => (d.request, d.outcome)), lane.pending, rfl,
        by rw [hqueue]; rfl, hlength⟩
  | false =>
      refine ⟨request, lane.queue, [], by simp, ?_, hlength⟩
      rw [hqueue]
      simp [queue]

/-- Changing a run in place leaves the queue alone. -/
theorem queue_set {i : Nat} {d : Dispatched} (hd : lane.runs[i]? = some d) (d' : Dispatched)
    (hrequest : d'.request = d.request) (houtcome : d'.outcome = d.outcome) :
    queue { lane with runs := lane.runs.set i d' } = lane.queue := by
  have hmap : (lane.runs.set i d').map (fun d => (d.request, d.outcome)) =
      lane.runs.map fun d => (d.request, d.outcome) := by
    obtain ⟨hi, rfl⟩ := List.getElem?_eq_some_iff.mp hd
    rw [List.map_set, hrequest, houtcome]
    have hself := @List.set_getElem_self _ (lane.runs.map fun d => (d.request, d.outcome)) i
      (by simpa using hi)
    simpa using hself
  simp [queue, hmap]

theorem interruptAndSubmit_queue (lane : Lane) (request : TurnRequest) (newRunId : String) :
    ∃ lane' response, lane.interruptAndSubmit request newRunId = (lane', response) ∧
      (∀ items, response ≠ .ok (.requests items)) ∧
      lane'.injections = lane.injections ∧ (SameQueue lane lane' ∨ Inserts lane lane') := by
  have hsubmit : ∃ lane' response, lane.submit request true newRunId = (lane', response) ∧
      (∀ items, response ≠ .ok (.requests items)) ∧
      lane'.injections = lane.injections ∧ (SameQueue lane lane' ∨ Inserts lane lane') := by
    obtain ⟨lane', heq, hmailbox, hinserts⟩ := submit_queue lane request true newRunId
    exact ⟨lane', _, heq, by simp, hmailbox, Or.inr hinserts⟩
  unfold interruptAndSubmit
  split
  · next i d hactive hrun =>
      split
      · exact hsubmit
      · cases hcancel : requestCancel d with
        | error exn => exact ⟨lane, _, rfl, by simp, rfl, Or.inl ⟨rfl, rfl⟩⟩
        | ok d' =>
            obtain ⟨-, rfl⟩ := requestCancel_ok_iff.mp hcancel
            have hd : lane.runs[i]? = some d := by simpa [activeRun, hactive] using hrun
            obtain ⟨lane', heq, hmailbox, request', front, back, hsplit, hqueue, hlength⟩ :=
              submit_queue { lane with runs := lane.runs.set i (interrupted d) } request true
                newRunId
            rw [queue_set hd (interrupted d) rfl rfl] at hsplit
            exact ⟨lane', _, heq, by simp, hmailbox,
              Or.inr ⟨request', front, back, hsplit, hqueue, hlength⟩⟩
  · exact hsubmit

theorem cancelRun_queue (lane : Lane) (runId : String) :
    ∃ lane' response, lane.cancelRun runId = (lane', response) ∧
      (∀ items, response ≠ .ok (.requests items)) ∧
      lane'.injections = lane.injections ∧ SameQueue lane lane' := by
  unfold cancelRun
  split
  · next i d hactive hrun =>
      have hd : lane.runs[i]? = some d := by simpa [activeRun, hactive] using hrun
      split
      · exact ⟨lane, _, rfl, by simp, rfl, rfl, rfl⟩
      · split
        · exact ⟨lane, _, rfl, by simp, rfl, rfl, rfl⟩
        · split
          · cases hcancel : requestCancel d with
            | error exn => exact ⟨lane, _, rfl, by simp, rfl, rfl, rfl⟩
            | ok d' =>
                obtain ⟨-, rfl⟩ := requestCancel_ok_iff.mp hcancel
                exact ⟨_, _, rfl, by simp, rfl, queue_set hd (interrupted d) rfl rfl, rfl⟩
          · exact ⟨_, _, rfl, by simp, rfl, queue_set hd { d with cancelled := true } rfl rfl, rfl⟩
  · exact ⟨lane, _, rfl, by simp, rfl, rfl, rfl⟩

theorem resolve_queue (lane : Lane) (i : Nat) (result : Except Exn TurnOutcome) :
    ∃ lane' response, lane.resolve i result = (lane', response) ∧
      (∀ items, response ≠ .ok (.requests items)) ∧
      lane'.injections = lane.injections ∧ SameQueue lane lane' := by
  unfold resolve
  split
  · exact ⟨lane, _, rfl, by simp, rfl, rfl, rfl⟩
  · next waiter hw =>
      split
      · exact ⟨lane, _, rfl, by simp, rfl, rfl, rfl⟩
      · split
        · exact ⟨lane, _, rfl, by simp, rfl, rfl, rfl⟩
        · next d hd =>
            simp only
            split
            · exact ⟨_, _, rfl, by simp, rfl, rfl, rfl⟩
            · next run hrun =>
                have hqueue := queue_set hd { d with run } rfl rfl
                split
                · exact ⟨_, _, rfl, by simp, rfl, hqueue, by simp⟩
                · exact ⟨_, _, rfl, by simp, rfl, hqueue, rfl⟩

/-- A release does nothing, or moves the mailbox to the end of the queue. -/
theorem release_queue (lane : Lane) (i : Nat) (newRunId : String) :
    (lane.release i newRunId = (lane, .ok .unit)) ∨
    ∃ lane', lane.release i newRunId = (lane', .ok (.requests lane.injections.items)) ∧
      FallsBack lane lane' := by
  unfold release
  split
  · exact Or.inl rfl
  · next waiter hw =>
      split
      · exact Or.inl rfl
      · refine Or.inr ?_
        simp only [InjectionMailbox.drainForFallback]
        obtain ⟨lane', heq, hqueue, houtcomes, hmailbox⟩ := andStart_queue lane
          { lane with
            active := if lane.active.isSome ∧ (lane.activeRun.map (fun d => d.run.runId) =
                lane.runs[waiter.run]?.map fun d => d.run.runId) then none else lane.active
            pending := lane.pending ++ lane.fallbackEntries lane.injections.items
            injections := lane.injections.drainForFallback.2
            waiters := lane.waiters.eraseIdx i
            outcomes := lane.outcomes ++ List.replicate lane.injections.items.length none }
          (.requests lane.injections.items) newRunId
        refine ⟨lane', heq, hmailbox, ?_, ?_⟩
        · rw [hqueue]
          simp [queue]
        · rw [houtcomes]
          simp

theorem acceptedBy_eq_nil {step : FineStep}
    (h : ∀ request, step ≠ .call (.inject request)) : lane.acceptedBy step = [] := by
  unfold acceptedBy
  split
  · next request _ => exact absurd rfl (h request)
  · rfl

theorem deliveredBy_eq_nil {step : FineStep}
    (h : ∀ items, fine.out lane step ≠ .ok (.requests items)) : lane.deliveredBy step = [] := by
  unfold deliveredBy
  split
  · next items hout => exact absurd hout (h items)
  · next items _ hout => exact absurd hout (h items)
  · rfl

theorem deliveredBy_fellBack {step : FineStep} {items : List TurnRequest}
    (hstep : step ≠ .call .drainInjections)
    (hout : fine.out lane step = .ok (.requests items)) :
    lane.deliveredBy step = items.map fun request => (.fellBack, request) := by
  unfold deliveredBy
  rw [hout]
  split
  · exact absurd rfl hstep
  · next items' hitems =>
      cases hitems
      rfl
  · next hnot _ => exact absurd rfl (hnot items)

/-- What a step does that leaves the mailbox alone. -/
def Quiet (lane : Lane) (step : FineStep) : Prop :=
  (fine.next lane step).injections = lane.injections ∧
    (SameQueue lane (fine.next lane step) ∨ Inserts lane (fine.next lane step)) ∧
    lane.acceptedBy step = [] ∧ lane.deliveredBy step = []

/-- What a step does that empties the mailbox onto the queue. -/
def EmptiesMailbox (lane : Lane) (step : FineStep) : Prop :=
  FallsBack lane (fine.next lane step) ∧ lane.acceptedBy step = [] ∧
    lane.deliveredBy step = lane.injections.items.map fun request => (.fellBack, request)

theorem quiet_of_eq {step : FineStep} {response : Except Exn Response}
    (hinject : ∀ request, step ≠ .call (.inject request))
    (h : ∃ lane', lane.fineStep step = (lane', response) ∧
      (∀ items, response ≠ .ok (.requests items)) ∧ lane'.injections = lane.injections ∧
      (SameQueue lane lane' ∨ Inserts lane lane')) : Quiet lane step := by
  obtain ⟨lane', heq, hresponse, hmailbox, hqueue⟩ := h
  have hnext : fine.next lane step = lane' := congrArg Prod.fst heq
  have hout : fine.out lane step = response := congrArg Prod.snd heq
  unfold Quiet
  rw [hnext]
  exact ⟨hmailbox, hqueue, acceptedBy_eq_nil hinject, deliveredBy_eq_nil (by rwa [hout])⟩

/-- Half a completion, or a whole one, is quiet or empties the mailbox. -/
theorem release_cases {step : FineStep} {i : Nat} {newRunId : String} {lane₁ : Lane}
    (hstep : step ≠ .call .drainInjections)
    (hinject : ∀ request, step ≠ .call (.inject request))
    (heq : lane.fineStep step = lane₁.release i newRunId)
    (hmailbox : lane₁.injections = lane.injections) (hqueue : SameQueue lane lane₁) :
    Quiet lane step ∨ EmptiesMailbox lane step := by
  rcases release_queue lane₁ i newRunId with hquiet | ⟨lane', hrelease, hmail', hqueue', hlength'⟩
  · exact Or.inl (quiet_of_eq hinject
      ⟨lane₁, heq.trans hquiet, by simp, hmailbox, Or.inl hqueue⟩)
  · have hnext : fine.next lane step = lane' := congrArg Prod.fst (heq.trans hrelease)
    have hout : fine.out lane step = .ok (.requests lane.injections.items) := by
      rw [← hmailbox]
      exact congrArg Prod.snd (heq.trans hrelease)
    refine Or.inr ⟨?_, acceptedBy_eq_nil hinject, deliveredBy_fellBack hstep hout⟩
    rw [hnext]
    refine ⟨by rw [hmail', hmailbox], ?_, by rw [hlength', hmailbox, hqueue.2]⟩
    rw [hqueue', hqueue.1, hmailbox, fallbackEntries, fallbackEntries, hqueue.2]

/-- An injection is refused without an active run, and put into the mailbox with one. -/
theorem inject_cases (lane : Lane) (request : TurnRequest) :
    Quiet lane (.call (.inject request)) ∨
    ((fine.next lane (.call (.inject request))).injections = lane.injections.put request ∧
      SameQueue lane (fine.next lane (.call (.inject request))) ∧
      lane.acceptedBy (.call (.inject request)) = [request] ∧
      lane.deliveredBy (.call (.inject request)) = []) := by
  cases hactive : lane.active with
  | none =>
      have heq : lane.fineStep (.call (.inject request)) = (lane, .ok (.flag false)) := by
        simp [fineStep, step, inject, hactive]
      have hnext : fine.next lane (.call (.inject request)) = lane := congrArg Prod.fst heq
      have hout : fine.out lane (.call (.inject request)) = .ok (.flag false) :=
        congrArg Prod.snd heq
      refine Or.inl ⟨by rw [hnext], Or.inl (by rw [hnext]; exact ⟨rfl, rfl⟩), ?_,
        deliveredBy_eq_nil (by rw [hout]; simp)⟩
      simp [acceptedBy, hout]
  | some i =>
      have heq : lane.fineStep (.call (.inject request)) =
          ({ lane with injections := lane.injections.put request }, .ok (.flag true)) := by
        simp [fineStep, step, inject, hactive]
      have hnext : fine.next lane (.call (.inject request)) =
          { lane with injections := lane.injections.put request } := congrArg Prod.fst heq
      have hout : fine.out lane (.call (.inject request)) = .ok (.flag true) :=
        congrArg Prod.snd heq
      refine Or.inr ⟨by rw [hnext], by rw [hnext]; exact ⟨rfl, rfl⟩, ?_,
        deliveredBy_eq_nil (by rw [hout]; simp)⟩
      simp [acceptedBy, hout]

theorem complete_quiet_or_empties (lane : Lane) (i : Nat) (result : Except Exn TurnOutcome)
    (newRunId : String) :
    Quiet lane (.call (.complete i result newRunId)) ∨
      EmptiesMailbox lane (.call (.complete i result newRunId)) := by
  obtain ⟨lane₁, response, hresolve, hresponse, hmailbox, hqueue⟩ := resolve_queue lane i result
  cases response with
  | error exn =>
      have heq : lane.fineStep (.call (.complete i result newRunId)) = (lane₁, .error exn) := by
        simp [fineStep, step, complete, hresolve]
      exact Or.inl (quiet_of_eq (by simp) ⟨lane₁, heq, by simp, hmailbox, Or.inl hqueue⟩)
  | ok response =>
      have heq : lane.fineStep (.call (.complete i result newRunId)) =
          lane₁.release i newRunId := by
        simp [fineStep, step, complete, hresolve]
      exact release_cases (by simp) (by simp) heq hmailbox hqueue

/-- The four things a step can do to the mailbox and the queue. -/
theorem fine_cases (lane : Lane) (step : FineStep) :
    Quiet lane step ∨
    (∃ request, (fine.next lane step).injections = lane.injections.put request ∧
      SameQueue lane (fine.next lane step) ∧
      lane.acceptedBy step = [request] ∧ lane.deliveredBy step = []) ∨
    ((fine.next lane step).injections = lane.injections.drain.2 ∧
      SameQueue lane (fine.next lane step) ∧
      lane.acceptedBy step = [] ∧
      lane.deliveredBy step = lane.injections.items.map fun request => (.drained, request)) ∨
    EmptiesMailbox lane step := by
  have hsame : SameQueue lane lane := ⟨rfl, rfl⟩
  cases step with
  | resolve i result =>
      obtain ⟨lane', response, heq, hresponse, hmailbox, hqueue⟩ := resolve_queue lane i result
      exact Or.inl (quiet_of_eq (by simp) ⟨lane', heq, hresponse, hmailbox, Or.inl hqueue⟩)
  | release i newRunId =>
      have hcases : Quiet lane (.release i newRunId) ∨ EmptiesMailbox lane (.release i newRunId) :=
        release_cases (by simp) (by simp) rfl rfl hsame
      rcases hcases with hquiet | hempties
      · exact Or.inl hquiet
      · exact Or.inr (Or.inr (Or.inr hempties))
  | call step =>
      cases step with
      | submit request front newRunId =>
          obtain ⟨lane', heq, hmailbox, hinserts⟩ := submit_queue lane request front newRunId
          exact Or.inl (quiet_of_eq (by simp) ⟨lane', heq, by simp, hmailbox, Or.inr hinserts⟩)
      | interruptAndSubmit request newRunId =>
          obtain ⟨lane', response, heq, hresponse, hmailbox, hqueue⟩ :=
            interruptAndSubmit_queue lane request newRunId
          exact Or.inl (quiet_of_eq (by simp) ⟨lane', heq, hresponse, hmailbox, hqueue⟩)
      | cancelRun runId =>
          obtain ⟨lane', response, heq, hresponse, hmailbox, hqueue⟩ := cancelRun_queue lane runId
          exact Or.inl (quiet_of_eq (by simp) ⟨lane', heq, hresponse, hmailbox, Or.inl hqueue⟩)
      | drainInjections => exact Or.inr (Or.inr (Or.inl ⟨rfl, hsame, rfl, rfl⟩))
      | inject request =>
          rcases inject_cases lane request with hquiet | haccepted
          · exact Or.inl hquiet
          · exact Or.inr (Or.inl ⟨request, haccepted⟩)
      | complete i result newRunId =>
          rcases complete_quiet_or_empties lane i result newRunId with hquiet | hempties
          · exact Or.inl hquiet
          · exact Or.inr (Or.inr (Or.inr hempties))

/-- What the mailbox gained and lost between two moments. -/
structure Conserves (mailbox mailbox' : InjectionMailbox) (accepted : List TurnRequest)
    (delivered : List (Delivery × TurnRequest)) : Prop where
  items : mailbox.items ++ accepted = delivered.map Prod.snd ++ mailbox'.items
  submitted : mailbox'.submitted = mailbox.submitted + accepted.length
  drained : mailbox'.drained =
    mailbox.drained + (delivered.map Prod.fst).count .drained
  fallbackAppended : mailbox'.fallbackAppended =
    mailbox.fallbackAppended + (delivered.map Prod.fst).count .fellBack

theorem Conserves.trans {a b c : InjectionMailbox} {accepted accepted' : List TurnRequest}
    {delivered delivered' : List (Delivery × TurnRequest)}
    (h : Conserves a b accepted delivered) (h' : Conserves b c accepted' delivered') :
    Conserves a c (accepted ++ accepted') (delivered ++ delivered') where
  items := by
    calc a.items ++ (accepted ++ accepted')
        = (a.items ++ accepted) ++ accepted' := (List.append_assoc ..).symm
      _ = delivered.map Prod.snd ++ (b.items ++ accepted') := by
          rw [h.items, List.append_assoc]
      _ = (delivered ++ delivered').map Prod.snd ++ c.items := by
          rw [h'.items, List.map_append, List.append_assoc]
  submitted := by
    rw [h'.submitted, h.submitted, List.length_append]
    omega
  drained := by
    rw [h'.drained, h.drained, List.map_append, List.count_append]
    omega
  fallbackAppended := by
    rw [h'.fallbackAppended, h.fallbackAppended, List.map_append, List.count_append]
    omega

theorem step_conserves (lane : Lane) (step : FineStep) :
    Conserves lane.injections (fine.next lane step).injections (lane.acceptedBy step)
      (lane.deliveredBy step) := by
  rcases fine_cases lane step with
    ⟨hmailbox, -, haccepted, hdelivered⟩ | ⟨request, hmailbox, -, haccepted, hdelivered⟩ |
    ⟨hmailbox, -, haccepted, hdelivered⟩ | ⟨⟨hmailbox, -, -⟩, haccepted, hdelivered⟩
  all_goals rw [hmailbox, haccepted, hdelivered]
  · exact ⟨by simp, by simp, by simp, by simp⟩
  · exact ⟨by simp [InjectionMailbox.put], by simp [InjectionMailbox.put],
      by simp [InjectionMailbox.put], by simp [InjectionMailbox.put]⟩
  · refine ⟨by simp [InjectionMailbox.drain, Function.comp_def],
      by simp [InjectionMailbox.drain], ?_, ?_⟩
    · simp [InjectionMailbox.drain, Function.comp_def]
    · simp [InjectionMailbox.drain, Function.comp_def, List.count_replicate]
  · refine ⟨by simp [InjectionMailbox.drainForFallback, Function.comp_def],
      by simp [InjectionMailbox.drainForFallback], ?_, ?_⟩
    · simp [InjectionMailbox.drainForFallback, Function.comp_def, List.count_replicate]
    · simp [InjectionMailbox.drainForFallback, Function.comp_def]

theorem run_conserves (lane : Lane) (steps : List FineStep) :
    Conserves lane.injections (fine.run lane steps).injections (accepted lane steps)
      (delivered lane steps) := by
  induction steps generalizing lane with
  | nil => exact ⟨by simp [accepted, delivered, Machine.run], rfl, rfl, rfl⟩
  | cons step steps ih => exact (step_conserves lane step).trans (ih (fine.next lane step))

/-- A mailbox with nothing missing. -/
def Balanced (mailbox : InjectionMailbox) : Prop :=
  mailbox.submitted = mailbox.drained + mailbox.fallbackAppended + mailbox.items.length

theorem count_add_count (delivered : List (Delivery × TurnRequest)) :
    (delivered.map Prod.fst).count .drained + (delivered.map Prod.fst).count .fellBack =
      delivered.length := by
  induction delivered with
  | nil => rfl
  | cons entry delivered ih =>
      obtain ⟨delivery, request⟩ := entry
      cases delivery with
      | drained =>
          simp only [List.map_cons, List.count_cons, List.length_cons]
          simp
          omega
      | fellBack =>
          simp only [List.map_cons, List.count_cons, List.length_cons]
          simp
          omega

/-- Futures in the queue are distinct and were handed out. -/
structure Ordered (lane : Lane) : Prop where
  nodup : (lane.queue.map Prod.snd).Nodup
  lt_length : ∀ id ∈ lane.queue.map Prod.snd, id < lane.outcomes.length

theorem Ordered.same {lane' : Lane} (h : Ordered lane) (hsame : SameQueue lane lane') :
    Ordered lane' := by
  obtain ⟨hqueue, hlength⟩ := hsame
  refine ⟨by rw [hqueue]; exact h.nodup, ?_⟩
  rw [hqueue, hlength]
  exact h.lt_length

/-- A new request gets a new future. -/
theorem Ordered.inserts {lane' : Lane} (h : Ordered lane) (hinserts : Inserts lane lane') :
    Ordered lane' := by
  obtain ⟨request, front, back, hsplit, hqueue, hlength⟩ := hinserts
  have hnodup := h.nodup
  have hlt := h.lt_length
  rw [hsplit] at hnodup hlt
  refine ⟨?_, ?_⟩
  · rw [hqueue]
    simp only [List.map_append, List.map_cons] at hnodup hlt ⊢
    rw [List.nodup_middle, List.nodup_cons]
    exact ⟨fun hmem => Nat.lt_irrefl _ (hlt _ hmem), hnodup⟩
  · intro id hid
    rw [hqueue, List.map_append, List.map_cons, List.mem_append, List.mem_cons] at hid
    rw [hlength]
    have hid : id = lane.outcomes.length ∨ id ∈ (front ++ back).map Prod.snd := by
      rw [List.map_append, List.mem_append]
      tauto
    rcases hid with rfl | hid
    · exact Nat.lt_succ_self _
    · exact Nat.lt_succ_of_lt (hlt id hid)

theorem Ordered.fallsBack {lane' : Lane} (h : Ordered lane) (hfalls : FallsBack lane lane') :
    Ordered lane' := by
  obtain ⟨-, hqueue, hlength⟩ := hfalls
  refine ⟨?_, ?_⟩
  · rw [hqueue, List.map_append, fallbackEntries_snd, List.nodup_append]
    refine ⟨h.nodup, List.nodup_range', ?_⟩
    intro id hid other hother hsame
    have hlt := h.lt_length id hid
    have hge := (List.mem_range'_1.mp hother).1
    omega
  · intro id hid
    rw [hqueue, List.map_append, fallbackEntries_snd, List.mem_append] at hid
    rw [hlength]
    rcases hid with hid | hid
    · exact Nat.lt_add_right _ (h.lt_length id hid)
    · exact (List.mem_range'_1.mp hid).2

/-- No step hands a future out twice. -/
theorem step_ordered (step : FineStep) (h : Ordered lane) : Ordered (fine.next lane step) := by
  rcases fine_cases lane step with
    ⟨-, hsame | hinserts, -, -⟩ | ⟨_, -, hsame, -, -⟩ | ⟨-, hsame, -, -⟩ | ⟨hfalls, -, -⟩
  · exact h.same hsame
  · exact h.inserts hinserts
  · exact h.same hsame
  · exact h.same hsame
  · exact h.fallsBack hfalls

/-- No step reorders the queue. -/
theorem step_sublist (lane : Lane) (step : FineStep) :
    lane.queue.Sublist (fine.next lane step).queue := by
  rcases fine_cases lane step with
    ⟨-, ⟨hqueue, -⟩ | ⟨request, front, back, hsplit, hqueue, -⟩, -, -⟩ | ⟨_, -, ⟨hqueue, -⟩, -, -⟩ |
    ⟨-, ⟨hqueue, -⟩, -, -⟩ | ⟨⟨-, hqueue, -⟩, -, -⟩
  · rw [hqueue]
  · rw [hsplit, hqueue]
    exact List.Sublist.append (List.Sublist.refl _) (List.sublist_cons_self _ _)
  · rw [hqueue]
  · rw [hqueue]
  · rw [hqueue]
    exact List.sublist_append_left _ _

theorem run_ordered (durable : Bool) (steps : List FineStep) :
    Ordered (fine.run { durable } steps) :=
  Machine.run_preserves (P := Ordered) (fun _ step h => step_ordered step h) steps
    ⟨List.nodup_nil, by simp [queue]⟩

theorem run_sublist (lane : Lane) (steps : List FineStep) :
    lane.queue.Sublist (fine.run lane steps).queue :=
  Machine.run_related (P := fun _ => True) (R := fun a b : Lane => a.queue.Sublist b.queue)
    (fun _ => List.Sublist.refl _) List.Sublist.trans (fun _ _ _ => trivial)
    (fun lane step _ => step_sublist lane step) steps trivial

/-- Of two queued requests, the later one starts only after the earlier one. -/
theorem started_in_order (h : Ordered lane) {p q : TurnRequest × Nat}
    (hpq : [p, q].Sublist lane.queue) (hq : q.2 ∈ lane.started) :
    [p.2, q.2].Sublist lane.started := by
  have hstarted : lane.queue.map Prod.snd = lane.started ++ lane.pending.map Prod.snd := by
    simp [queue, started, Function.comp_def]
  have hnodup := h.nodup
  rw [hstarted, List.nodup_append] at hnodup
  have hsub : [p.2, q.2].Sublist (lane.started ++ lane.pending.map Prod.snd) := by
    rw [← hstarted]
    exact hpq.map Prod.snd
  obtain ⟨l, r, hlr, hl, hr⟩ := List.sublist_append_iff.mp hsub
  -- `q` has started, so nothing of the pair is still pending
  have hnil : r = [] := by
    by_contra hne
    have hmem : q.2 ∈ r := by
      have hlast : r.getLast hne = q.2 := by
        have hlr' : (l ++ r).getLast (by simp [hne]) = q.2 := by
          simp [← hlr]
        rwa [List.getLast_append_of_right_ne_nil _ _ hne] at hlr'
      rw [← hlast]
      exact List.getLast_mem hne
    exact hnodup.2.2 q.2 hq q.2 (hr.subset hmem) rfl
  rw [hnil, List.append_nil] at hlr
  rw [hlr]
  exact hl

end Lane
end Spine
end CodeCub

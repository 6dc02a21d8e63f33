import CodeCub.Spine.Lane
import Mathlib.Logic.Relation
import Mathlib.Data.List.Nodup
import Mathlib.Data.List.Perm.Basic

/-!
# When a lane keeps moving

A healthy lane has one completion thread for its active run and none otherwise,
and every future it handed out is pending, active or settled.  An interrupt keeps
it healthy when it finds a running turn or none, and a completion when the status
it ends with is one that the transition table allows.  Every other step always
does.
-/

namespace CodeCub
namespace Spine

open Tooling (Exn)

/-- A chain of entries of the transition table. -/
abbrev StatusPath : RunStatus → RunStatus → Prop :=
  Relation.ReflTransGen fun a b => b ∈ a.allowed

namespace Run

variable {run run' : Run} {status : RunStatus}

theorem transitionTo_ok_iff :
    run.transitionTo status = .ok run' ↔
      status ∈ run.status.allowed ∧ run' = { run with status } := by
  unfold transitionTo
  split
  · next hterminal =>
      cases hs : run.status <;> simp_all [RunStatus.terminal, RunStatus.allowed]
  · split
    · next hmem => simp [hmem, eq_comm]
    · next hmem => simp [hmem]

theorem transitionTo_path (h : run.transitionTo status = .ok run') :
    StatusPath run.status run'.status := by
  obtain ⟨hmem, rfl⟩ := transitionTo_ok_iff.mp h
  exact Relation.ReflTransGen.single hmem

end Run

/-- Futures handed out: `live` lists the ones that are still unsettled, each once. -/
structure Tickets (live : List Nat) (outcomes : List (Option TurnOutcome)) : Prop where
  nodup : live.Nodup
  mem_iff : ∀ id, id ∈ live ↔ outcomes[id]? = some none

namespace Tickets

variable {live live' : List Nat} {outcomes : List (Option TurnOutcome)}

theorem lt_length (h : Tickets live outcomes) {id : Nat} (hid : id ∈ live) :
    id < outcomes.length := by
  have hget := (h.mem_iff id).mp hid
  exact (List.getElem?_eq_some_iff.mp hget).1

/-- New futures join the live ones. -/
theorem append (h : Tickets live outcomes) {n : Nat}
    (hperm : live'.Perm (live ++ List.range' outcomes.length n)) :
    Tickets live' (outcomes ++ List.replicate n none) := by
  refine ⟨?_, ?_⟩
  · rw [hperm.nodup_iff, List.nodup_append]
    refine ⟨h.nodup, List.nodup_range', ?_⟩
    intro id hid other hother hsame
    have hlt := h.lt_length hid
    have hge := (List.mem_range'_1.mp hother).1
    omega
  · intro id
    rw [hperm.mem_iff, List.mem_append, h.mem_iff, List.mem_range'_1]
    by_cases hlt : id < outcomes.length
    · rw [List.getElem?_append_left hlt]
      constructor
      · intro h
        rcases h with hget | ⟨hge, -⟩
        · exact hget
        · omega
      · exact Or.inl
    · have hge : outcomes.length ≤ id := by omega
      rw [List.getElem?_append_right hge, List.getElem?_replicate,
        List.getElem?_eq_none hge]
      constructor
      · intro h
        rcases h with hget | ⟨-, hupper⟩
        · cases hget
        · rw [if_pos (by omega)]
      · intro hget
        refine Or.inr ⟨hge, ?_⟩
        by_contra hnot
        rw [if_neg (by omega)] at hget
        cases hget

/-- Settling the first live future takes it off the list. -/
theorem settle {id : Nat} (h : Tickets (id :: live) outcomes) (outcome : TurnOutcome) :
    Tickets live (outcomes.set id (some outcome)) := by
  obtain ⟨hnot, hnodup⟩ := List.nodup_cons.mp h.nodup
  refine ⟨hnodup, ?_⟩
  intro other
  by_cases hsame : other = id
  · subst hsame
    rw [List.getElem?_set_self (h.lt_length List.mem_cons_self)]
    simp [hnot]
  · rw [List.getElem?_set_ne (Ne.symm hsame), ← h.mem_iff]
    simp [hsame]

end Tickets

namespace Lane

/-- The statuses of an active run, with its cancellation flag. -/
def Live (dispatched : Dispatched) : Prop :=
  dispatched.run.status = .queued ∨
    (dispatched.run.status = .running ∧ dispatched.cancelled = false) ∨
    (dispatched.run.status = .cancelling ∧ dispatched.cancelled = true)

/-- The unsettled futures, the active one first. -/
def live (lane : Lane) : List Nat :=
  (lane.activeRun.map Dispatched.outcome).toList ++ lane.pending.map Prod.snd

/-- The bookkeeping of a lane, which also holds just before `startNext`. -/
structure Sound (lane : Lane) : Prop where
  watched : lane.waiters = (lane.active.map fun i => ({ run := i } : Waiter)).toList
  activeLive : ∀ i, lane.active = some i → ∃ d, lane.runs[i]? = some d ∧ Live d
  tickets : Tickets lane.live lane.outcomes

/-- At most one run is active, with one completion thread; every future is in
exactly one of pending, active and settled; and an idle lane has nothing to do. -/
structure Healthy (lane : Lane) : Prop extends Sound lane where
  idle : lane.active = none → lane.pending = []

/-- Every status that changed between two moments followed the table. -/
structure FollowsTable (lane lane' : Lane) : Prop where
  kept : ∀ (j : Nat) (d : Dispatched), lane.runs[j]? = some d →
    ∃ d' : Dispatched, lane'.runs[j]? = some d' ∧ StatusPath d.run.status d'.run.status
  fresh : ∀ (j : Nat) (d' : Dispatched), lane.runs[j]? = none → lane'.runs[j]? = some d' →
    StatusPath .queued d'.run.status

/-- The completion thread `i` settles the future of its run once, and the next
pending request, counting the ones that fall back, is started. -/
def Completes (lane lane' : Lane) (i : Nat) (result : Except Exn TurnOutcome) : Prop :=
  ∀ waiter, lane.waiters[i]? = some waiter →
    ∃ d, lane.runs[waiter.run]? = some d ∧ lane.outcomes[d.outcome]? = some none ∧
      lane'.outcomes = lane.outcomes.set d.outcome (some (finalOutcome d result)) ++
        List.replicate lane.injections.items.length none ∧
      match lane.pending ++ lane.fallbackEntries lane.injections.items with
      | [] => lane'.active = none ∧ lane'.pending = []
      | (request, outcome) :: pending =>
          lane'.active = some lane.runs.length ∧ lane'.pending = pending ∧
          ∃ d', lane'.runs[lane.runs.length]? = some d' ∧ d'.request = request ∧
            d'.outcome = outcome

/-- What the lane promises of one step. -/
structure StepFine (lane : Lane) (step : LaneStep) : Prop where
  returns : ∃ response, machine.out lane step = .ok response
  healthy : Healthy (machine.next lane step)
  table : FollowsTable lane (machine.next lane step)
  completes : ∀ i result newRunId, step = .complete i result newRunId →
    Completes lane (machine.next lane step) i result

/-- An interrupt finds no run, or a running or finished one; a completion ends with
a status that is skipped or allowed. -/
def Permitted (lane : Lane) : LaneStep → Prop
  | .interruptAndSubmit _ _ =>
      ∀ d, lane.activeRun = some d → d.run.status = .running ∨ d.run.status.terminal
  | .complete i result _ =>
      ∀ waiter d, lane.waiters[i]? = some waiter → lane.runs[waiter.run]? = some d →
        (finalOutcome d result).status = .queued ∨
          (finalOutcome d result).status ∈ d.run.status.allowed
  | _ => True

variable {lane lane' lane'' : Lane}

namespace FollowsTable

theorem of_runs_eq (h : lane'.runs = lane.runs) : FollowsTable lane lane' where
  kept j d hd := ⟨d, by rw [h]; exact hd, Relation.ReflTransGen.refl⟩
  fresh j d' hnone hd' := by
    rw [h, hnone] at hd'
    cases hd'

theorem trans (h : FollowsTable lane lane') (h' : FollowsTable lane' lane'') :
    FollowsTable lane lane'' where
  kept j d hd := by
    obtain ⟨d', hd', hpath⟩ := h.kept j d hd
    obtain ⟨d'', hd'', hpath'⟩ := h'.kept j d' hd'
    exact ⟨d'', hd'', hpath.trans hpath'⟩
  fresh j d'' hnone hd'' := by
    cases hj : lane'.runs[j]? with
    | none => exact h'.fresh j d'' hj hd''
    | some d' =>
        obtain ⟨e, he, hpath⟩ := h'.kept j d' hj
        have hsame : e = d'' := Option.some.inj (he.symm.trans hd'')
        rw [← hsame]
        exact (h.fresh j d' hnone hj).trans hpath

theorem of_set {i : Nat} {d d' : Dispatched} (hd : lane.runs[i]? = some d)
    (hpath : StatusPath d.run.status d'.run.status) (h : lane'.runs = lane.runs.set i d') :
    FollowsTable lane lane' where
  kept j e he := by
    have hi : i < lane.runs.length := (List.getElem?_eq_some_iff.mp hd).1
    rw [h]
    by_cases hij : i = j
    · subst hij
      have hsame : d = e := Option.some.inj (hd.symm.trans he)
      subst hsame
      exact ⟨d', List.getElem?_set_self hi, hpath⟩
    · rw [List.getElem?_set_ne hij]
      exact ⟨e, he, Relation.ReflTransGen.refl⟩
  fresh j e hnone he := by
    have hlt := (List.getElem?_eq_some_iff.mp he).1
    rw [h, List.length_set] at hlt
    have hge := List.getElem?_eq_none_iff.mp hnone
    omega

theorem of_append {d' : Dispatched} (hpath : StatusPath .queued d'.run.status)
    (h : lane'.runs = lane.runs ++ [d']) : FollowsTable lane lane' where
  kept j d hd := by
    have hlt := (List.getElem?_eq_some_iff.mp hd).1
    refine ⟨d, ?_, Relation.ReflTransGen.refl⟩
    rw [h, List.getElem?_append_left hlt]
    exact hd
  fresh j e hnone he := by
    have hge := List.getElem?_eq_none_iff.mp hnone
    rw [h, List.getElem?_append_right hge] at he
    have hmem := List.mem_of_getElem? he
    rw [List.mem_singleton] at hmem
    rw [hmem]
    exact hpath

end FollowsTable

theorem dispatch_ok (lane : Lane) (run : Run) (hstatus : run.status = .queued) :
    ∃ run', lane.dispatch run = .ok run' ∧ StatusPath .queued run'.status ∧
      (run'.status = .queued ∨ run'.status = .running) := by
  unfold dispatch
  split
  · exact ⟨run, rfl, by rw [hstatus], Or.inl hstatus⟩
  · have hok : run.transitionTo .running = .ok { run with status := .running } :=
      Run.transitionTo_ok_iff.mpr ⟨by rw [hstatus]; decide, rfl⟩
    refine ⟨_, hok, ?_, Or.inr rfl⟩
    rw [← hstatus]
    exact Run.transitionTo_path hok

/-- An idle lane starts its first pending request; a busy one waits. -/
theorem startNext_cases (lane : Lane) (newRunId : String) :
    (lane.startNext newRunId = .ok lane ∧ (lane.active = none → lane.pending = [])) ∨
    ∃ request outcome pending run, lane.active = none ∧
      lane.pending = (request, outcome) :: pending ∧ StatusPath .queued run.status ∧
      (run.status = .queued ∨ run.status = .running) ∧
      lane.startNext newRunId = .ok
        { lane with
          active := some lane.runs.length
          pending := pending
          runs := lane.runs ++ [{ request, run, outcome }]
          waiters := lane.waiters ++ [{ run := lane.runs.length }] } := by
  unfold startNext
  cases hactive : lane.active with
  | some i => exact Or.inl ⟨rfl, by simp⟩
  | none =>
      cases hpending : lane.pending with
      | nil => exact Or.inl ⟨rfl, by simp⟩
      | cons entry pending =>
          obtain ⟨request, outcome⟩ := entry
          obtain ⟨run, hrun, hpath, hstatus⟩ := dispatch_ok lane
            { runId := runIdFor request newRunId, turnId := request.turnId
              conversationId := request.conversationId, sessionId := request.sessionId
              traceId := request.traceId } rfl
          refine Or.inr ⟨request, outcome, pending, run, rfl, rfl, hpath, hstatus, ?_⟩
          simp only [hrun]
          rfl

/-- What `startNext` does to the queue. -/
def StartsNext (lane lane' : Lane) : Prop :=
  lane.active = none →
    match lane.pending with
    | [] => lane'.active = none ∧ lane'.pending = []
    | (request, outcome) :: pending =>
        lane'.active = some lane.runs.length ∧ lane'.pending = pending ∧
        ∃ d', lane'.runs[lane.runs.length]? = some d' ∧ d'.request = request ∧
          d'.outcome = outcome

theorem startNext_healthy (h : Sound lane) (newRunId : String) :
    ∃ lane', lane.startNext newRunId = .ok lane' ∧ Healthy lane' ∧ FollowsTable lane lane' ∧
      lane'.outcomes = lane.outcomes ∧ StartsNext lane lane' := by
  rcases startNext_cases lane newRunId with
    ⟨heq, hidle⟩ | ⟨request, outcome, pending, run, hactive, hpending, hpath, hstatus, heq⟩
  · refine ⟨lane, heq, ⟨h, hidle⟩, FollowsTable.of_runs_eq rfl, rfl, ?_⟩
    intro hactive
    rw [hidle hactive]
    exact ⟨hactive, rfl⟩
  · refine ⟨_, heq, ⟨⟨?_, ?_, ?_⟩, by simp⟩, FollowsTable.of_append hpath rfl, rfl, ?_⟩
    · simp [h.watched, hactive]
    · intro i hi
      cases hi
      refine ⟨{ request, run, outcome }, by simp, ?_⟩
      rcases hstatus with hq | hr
      · exact Or.inl hq
      · exact Or.inr (Or.inl ⟨hr, rfl⟩)
    · have hlive := h.tickets
      simpa [live, activeRun, hactive, hpending] using hlive
    · intro _
      rw [hpending]
      exact ⟨rfl, rfl, { request, run, outcome }, by simp, rfl, rfl⟩

theorem andStart_fine (lane : Lane) {lane' : Lane} (result : Response) (newRunId : String)
    (h : Sound lane') (hfollow : FollowsTable lane lane') :
    ∃ lane'', lane.andStart result newRunId lane' = (lane'', .ok result) ∧ Healthy lane'' ∧
      FollowsTable lane lane'' ∧ lane''.outcomes = lane'.outcomes ∧ StartsNext lane' lane'' := by
  obtain ⟨lane'', heq, hhealthy, htable, houtcomes, hstarts⟩ := startNext_healthy h newRunId
  refine ⟨lane'', ?_, hhealthy, hfollow.trans htable, houtcomes, hstarts⟩
  simp [andStart, heq]

/-- A submitted request gets a new future and waits or starts. -/
theorem submit_fine (h : Sound lane) (request : TurnRequest) (front : Bool)
    (newRunId : String) :
    ∃ lane', lane.submit request front newRunId = (lane', .ok (.future lane.outcomes.length)) ∧
      Healthy lane' ∧ FollowsTable lane lane' := by
  have hsound : Sound { lane with
      pending := if front then (request, lane.outcomes.length) :: lane.pending
        else lane.pending ++ [(request, lane.outcomes.length)]
      outcomes := lane.outcomes ++ [none] } := by
    refine ⟨h.watched, h.activeLive, h.tickets.append (n := 1) ?_⟩
    cases front with
    | true =>
        simp only [live, activeRun, if_true, List.map_cons, List.range'_one]
        exact List.perm_middle.trans (List.perm_append_singleton _ _).symm
    | false => simp [live, activeRun]
  obtain ⟨lane', heq, hhealthy, htable, -, -⟩ := andStart_fine lane
    (.future lane.outcomes.length) newRunId hsound (FollowsTable.of_runs_eq rfl)
  exact ⟨lane', heq, hhealthy, htable⟩

theorem activeRun_eq {i : Nat} {d : Dispatched} (hactive : lane.active = some i)
    (hd : lane.runs[i]? = some d) : lane.activeRun = some d := by
  rw [activeRun, hactive]
  exact hd

/-- Changing the active run in place keeps the bookkeeping. -/
theorem Sound.setRun (h : Sound lane) {i : Nat} {d d' : Dispatched} (hactive : lane.active = some i)
    (hd : lane.runs[i]? = some d) (hlive : Live d') (houtcome : d'.outcome = d.outcome) :
    Sound { lane with runs := lane.runs.set i d' } := by
  have hi : i < lane.runs.length := (List.getElem?_eq_some_iff.mp hd).1
  refine ⟨h.watched, ?_, ?_⟩
  · intro j hj
    have hsame : i = j := Option.some.inj (hactive.symm.trans hj)
    subst hsame
    exact ⟨d', List.getElem?_set_self hi, hlive⟩
  · have hticket := h.tickets
    have hrun' : activeRun { lane with runs := lane.runs.set i d' } = some d' :=
      activeRun_eq hactive (List.getElem?_set_self hi)
    rw [live, activeRun_eq hactive hd] at hticket
    rw [live, hrun']
    simpa [houtcome] using hticket

/-- A running turn after a cancellation request. -/
def interrupted (d : Dispatched) : Dispatched :=
  { d with run := { d.run with status := .cancelling }, cancelled := true }

theorem requestCancel_ok_iff {d d' : Dispatched} :
    requestCancel d = .ok d' ↔ d.run.status = .running ∧ d' = interrupted d := by
  unfold requestCancel interrupted
  cases hs : d.run.status <;>
    simp [Run.transitionTo, hs, RunStatus.terminal, RunStatus.allowed, bind, Except.bind, pure,
      Except.pure, eq_comm]

theorem cancelling_path : StatusPath .running .cancelling :=
  Relation.ReflTransGen.head (by decide : RunStatus.cancelRequested ∈ RunStatus.running.allowed)
    (Relation.ReflTransGen.single (by decide))

theorem Live.not_terminal {d : Dispatched} (h : Live d) : d.run.status.terminal = false := by
  rcases h with h | ⟨h, -⟩ | ⟨h, -⟩ <;> rw [h] <;> rfl

/-- A step that returned in a healthy lane, unless it is a completion. -/
theorem stepFine_of_eq {step : LaneStep} {response : Response}
    (heq : lane.step step = (lane', .ok response)) (hhealthy : Healthy lane')
    (htable : FollowsTable lane lane')
    (hcompletes : ∀ i result newRunId, step = .complete i result newRunId →
      Completes lane lane' i result) : StepFine lane step := by
  have hnext : machine.next lane step = lane' := congrArg Prod.fst heq
  have hout : machine.out lane step = .ok response := congrArg Prod.snd heq
  exact ⟨⟨response, hout⟩, by rw [hnext]; exact hhealthy, by rw [hnext]; exact htable,
    by rw [hnext]; exact hcompletes⟩

theorem not_stepFine_of_raises {step : LaneStep} {exn : Exn}
    (heq : (lane.step step).2 = .error exn) : ¬ StepFine lane step := by
  intro hfine
  obtain ⟨⟨response, hout⟩, -, -, -⟩ := hfine
  have hout : (lane.step step).2 = .ok response := hout
  rw [heq] at hout
  cases hout

theorem stepFine_of_returns {step : LaneStep} {response : Response}
    (hnot : ∀ i result newRunId, step ≠ .complete i result newRunId)
    (heq : lane.step step = (lane', .ok response)) (hhealthy : Healthy lane')
    (htable : FollowsTable lane lane') : StepFine lane step :=
  stepFine_of_eq heq hhealthy htable
    fun i result newRunId hstep => absurd hstep (hnot i result newRunId)

theorem submit_stepFine (h : Healthy lane) (request : TurnRequest) (front : Bool)
    (newRunId : String) : StepFine lane (.submit request front newRunId) := by
  obtain ⟨lane', heq, hhealthy, htable⟩ := submit_fine h.toSound request front newRunId
  exact stepFine_of_returns (by simp) heq hhealthy htable

theorem interruptAndSubmit_of_idle {request : TurnRequest} {newRunId : String}
    (hactive : lane.active = none) :
    lane.interruptAndSubmit request newRunId = lane.submit request true newRunId := by
  unfold interruptAndSubmit
  rw [hactive]

theorem interruptAndSubmit_of_live (request : TurnRequest) (newRunId : String) {i : Nat}
    {d : Dispatched} (hactive : lane.active = some i) (hrun : lane.activeRun = some d)
    (hlive : Live d) :
    lane.interruptAndSubmit request newRunId =
      match requestCancel d with
      | .error exn => (lane, .error exn)
      | .ok d' => submit { lane with runs := lane.runs.set i d' } request true newRunId := by
  unfold interruptAndSubmit
  rw [hactive, hrun]
  simp only [hlive.not_terminal]
  rfl

theorem interruptAndSubmit_stepFine_iff (h : Healthy lane) (request : TurnRequest)
    (newRunId : String) :
    StepFine lane (.interruptAndSubmit request newRunId) ↔
      Permitted lane (.interruptAndSubmit request newRunId) := by
  cases hactive : lane.active with
  | none =>
      have hrun : lane.activeRun = none := by simp [activeRun, hactive]
      refine ⟨fun _ d hd => absurd (hrun.symm.trans hd) (by simp), fun _ => ?_⟩
      obtain ⟨lane', heq, hhealthy, htable⟩ := submit_fine h.toSound request true newRunId
      rw [← interruptAndSubmit_of_idle hactive] at heq
      exact stepFine_of_returns (by simp) heq hhealthy htable
  | some i =>
      obtain ⟨d, hd, hlive⟩ := h.activeLive i hactive
      have hrun := activeRun_eq hactive hd
      have hstep := interruptAndSubmit_of_live request newRunId hactive hrun hlive
      cases hcancel : requestCancel d with
      | ok d' =>
          obtain ⟨hstatus, hd'⟩ := requestCancel_ok_iff.mp hcancel
          rw [hcancel] at hstep
          refine ⟨fun _ e he => ?_, fun _ => ?_⟩
          · have hsame : d = e := Option.some.inj (hrun.symm.trans he)
            rw [← hsame]
            exact Or.inl hstatus
          · have hsound : Sound { lane with runs := lane.runs.set i d' } := by
              subst hd'
              exact h.toSound.setRun hactive hd (Or.inr (Or.inr ⟨rfl, rfl⟩)) rfl
            have hpath : StatusPath d.run.status d'.run.status := by
              subst hd'
              rw [hstatus]
              exact cancelling_path
            obtain ⟨lane', heq, hhealthy, htable⟩ := submit_fine hsound request true newRunId
            exact stepFine_of_returns (by simp) (hstep.trans heq) hhealthy
              (FollowsTable.trans (FollowsTable.of_set hd hpath rfl) htable)
      | error exn =>
          rw [hcancel] at hstep
          refine ⟨fun hfine => absurd hfine (not_stepFine_of_raises (congrArg Prod.snd hstep)),
            fun hpermitted => ?_⟩
          rcases hpermitted d hrun with hrunning | hterminal
          · rw [requestCancel_ok_iff.mpr ⟨hrunning, rfl⟩] at hcancel
            cases hcancel
          · rw [hlive.not_terminal] at hterminal
            cases hterminal

theorem inject_stepFine (h : Healthy lane) (request : TurnRequest) :
    StepFine lane (.inject request) := by
  cases hactive : lane.active with
  | none =>
      have heq : lane.step (.inject request) = (lane, .ok (.flag false)) := by
        simp [step, inject, hactive]
      exact stepFine_of_returns (by simp) heq h (FollowsTable.of_runs_eq rfl)
  | some i =>
      have heq : lane.step (.inject request) =
          ({ lane with injections := lane.injections.put request }, .ok (.flag true)) := by
        simp [step, inject, hactive]
      exact stepFine_of_returns (by simp) heq
        ⟨⟨h.watched, h.activeLive, h.tickets⟩, h.idle⟩ (FollowsTable.of_runs_eq rfl)

theorem drainInjections_stepFine (h : Healthy lane) : StepFine lane .drainInjections :=
  stepFine_of_returns (by simp) rfl ⟨⟨h.watched, h.activeLive, h.tickets⟩, h.idle⟩
    (FollowsTable.of_runs_eq rfl)

theorem cancelRun_stepFine (h : Healthy lane) (runId : String) :
    StepFine lane (.cancelRun runId) := by
  have hrefused : lane.step (.cancelRun runId) = (lane, .ok (.flag false)) →
      StepFine lane (.cancelRun runId) :=
    fun heq => stepFine_of_returns (by simp) heq h (FollowsTable.of_runs_eq rfl)
  cases hactive : lane.active with
  | none => exact hrefused (by simp [step, cancelRun, hactive])
  | some i =>
      obtain ⟨d, hd, hlive⟩ := h.activeLive i hactive
      have hrun := activeRun_eq hactive hd
      by_cases hid : d.run.runId = runId
      · by_cases hstatus : d.run.status = .running
        · have hcancel := requestCancel_ok_iff.mpr ⟨hstatus, rfl⟩
          have heq : lane.step (.cancelRun runId) =
              ({ lane with runs := lane.runs.set i (interrupted d) }, .ok (.flag true)) := by
            simp [step, cancelRun, hactive, hrun, hid, hstatus, hcancel, RunStatus.terminal]
          have hlive' : Live (interrupted d) := Or.inr (Or.inr ⟨rfl, rfl⟩)
          have hsound := h.toSound.setRun hactive hd hlive' rfl
          refine stepFine_of_returns (by simp) heq ⟨hsound, h.idle⟩ (FollowsTable.of_set hd ?_ rfl)
          rw [hstatus]
          exact cancelling_path
        · have heq : lane.step (.cancelRun runId) =
              ({ lane with runs := lane.runs.set i { d with cancelled := true } },
                .ok (.flag true)) := by
            simp [step, cancelRun, hactive, hrun, hid, hlive.not_terminal, hstatus]
          have hlive' : Live { d with cancelled := true } := by
            rcases hlive with hq | ⟨hr, -⟩ | ⟨hc, -⟩
            · exact Or.inl hq
            · exact absurd hr hstatus
            · exact Or.inr (Or.inr ⟨hc, rfl⟩)
          have hsound := h.toSound.setRun hactive hd hlive' rfl
          have hpath : StatusPath d.run.status { d with cancelled := true }.run.status :=
            Relation.ReflTransGen.refl
          exact stepFine_of_returns (by simp) heq ⟨hsound, h.idle⟩
            (FollowsTable.of_set hd hpath rfl)
      · exact hrefused (by simp [step, cancelRun, hactive, hrun, hid])

/-- In a healthy lane the only completion thread is the active run's. -/
theorem Sound.waiter (h : Sound lane) {i : Nat} {waiter : Waiter}
    (hw : lane.waiters[i]? = some waiter) :
    i = 0 ∧ lane.active = some waiter.run ∧ waiter.resolved = false ∧
      lane.waiters = [waiter] := by
  rw [h.watched] at hw
  cases hactive : lane.active with
  | none =>
      rw [hactive] at hw
      simp at hw
  | some j =>
      rw [hactive] at hw
      cases i with
      | zero =>
          simp only [Option.map_some, Option.toList_some, List.getElem?_cons_zero,
            Option.some.injEq] at hw
          subst hw
          refine ⟨rfl, rfl, rfl, ?_⟩
          rw [h.watched, hactive]
          rfl
      | succ n => simp at hw

/-- The lane between the two halves of a completion: the future is settled, and
the thread goes on to free the lane. -/
def settled (lane : Lane) (d : Dispatched) (run : Run) (j : Nat) (outcome : TurnOutcome) : Lane :=
  { lane with
    runs := lane.runs.set j { d with run }
    outcomes := lane.outcomes.set d.outcome (some outcome)
    waiters := [{ run := j, resolved := true }] }

/-- The lane as `startNext` finds it at the end of a completion. -/
def freed (lane : Lane) : Lane :=
  { lane with
    active := none
    pending := lane.pending ++ lane.fallbackEntries lane.injections.items
    injections := lane.injections.drainForFallback.2
    waiters := []
    outcomes := lane.outcomes ++ List.replicate lane.injections.items.length none }

theorem fallbackEntries_snd (lane : Lane) (items : List TurnRequest) :
    (lane.fallbackEntries items).map Prod.snd = List.range' lane.outcomes.length items.length := by
  unfold fallbackEntries
  exact List.map_snd_zip (by simp)

theorem resolve_of_watched {d : Dispatched} {j : Nat} (result : Except Exn TurnOutcome)
    (hwaiters : lane.waiters = [{ run := j }]) (hd : lane.runs[j]? = some d)
    (hopen : lane.outcomes[d.outcome]? = some none) :
    lane.resolve 0 result =
      match (if (finalOutcome d result).status = .queued then .ok d.run
        else d.run.transitionTo (finalOutcome d result).status) with
      | .error exn => ({ lane with waiters := [] }, .error exn)
      | .ok run => (lane.settled d run j (finalOutcome d result), .ok .unit) := by
  unfold resolve settled
  simp only [hwaiters, hd, hopen, List.getElem?_cons_zero]
  rfl

theorem release_of_settled {d : Dispatched} {run : Run} {j : Nat} {outcome : TurnOutcome}
    {newRunId : String} (hactive : lane.active = some j) :
    (lane.settled d run j outcome).release 0 newRunId =
      (lane.settled d run j outcome).andStart (.requests lane.injections.items) newRunId
        (lane.settled d run j outcome).freed := by
  unfold release settled freed activeRun
  simp [hactive, InjectionMailbox.drainForFallback, fallbackEntries]

/-- Whether the status a turn ends with is skipped or allowed. -/
theorem finish_ok_iff {d : Dispatched} {status : RunStatus} :
    (∃ run, (if status = .queued then .ok d.run else d.run.transitionTo status) =
      (.ok run : Except Exn Run)) ↔ status = .queued ∨ status ∈ d.run.status.allowed := by
  by_cases hq : status = .queued
  · simp [hq]
  · simp [hq, Run.transitionTo_ok_iff]

theorem freed_sound (h : Sound lane) {d : Dispatched} (run : Run) {j : Nat}
    (outcome : TurnOutcome) (hactive : lane.active = some j) (hd : lane.runs[j]? = some d) :
    Sound (lane.settled d run j outcome).freed := by
  have htickets := h.tickets
  rw [live, activeRun_eq hactive hd] at htickets
  have hsettled : Tickets (lane.pending.map Prod.snd)
      (lane.outcomes.set d.outcome (some outcome)) := htickets.settle outcome
  refine ⟨rfl, fun i hi => (by cases hi), hsettled.append ?_⟩
  simp [live, activeRun, freed, settled, fallbackEntries_snd]

theorem finish_path {d : Dispatched} {status : RunStatus} {run : Run}
    (h : (if status = .queued then .ok d.run else d.run.transitionTo status) =
      (.ok run : Except Exn Run)) : StatusPath d.run.status run.status := by
  by_cases hq : status = .queued
  · rw [if_pos hq] at h
    cases h
    exact Relation.ReflTransGen.refl
  · rw [if_neg hq] at h
    exact Run.transitionTo_path h

/-- The thread is determined, so the permission is about its run. -/
theorem permitted_complete_iff {i : Nat} {waiter : Waiter} {d : Dispatched}
    {result : Except Exn TurnOutcome} {newRunId : String} (hw : lane.waiters[i]? = some waiter)
    (hd : lane.runs[waiter.run]? = some d) :
    Permitted lane (.complete i result newRunId) ↔
      (finalOutcome d result).status = .queued ∨
        (finalOutcome d result).status ∈ d.run.status.allowed := by
  constructor
  · intro hp
    exact hp waiter d hw hd
  · intro hp waiter' d' hw' hd'
    have hsame : waiter = waiter' := Option.some.inj (hw.symm.trans hw')
    subst hsame
    have hsame : d = d' := Option.some.inj (hd.symm.trans hd')
    subst hsame
    exact hp

/-- A completion without a thread changes nothing. -/
theorem complete_absent (h : Healthy lane) {i : Nat} (hw : lane.waiters[i]? = none)
    (result : Except Exn TurnOutcome) (newRunId : String) :
    StepFine lane (.complete i result newRunId) := by
  have heq : lane.step (.complete i result newRunId) = (lane, .ok .unit) := by
    simp [step, complete, resolve, release, hw]
  refine stepFine_of_eq heq h (FollowsTable.of_runs_eq rfl) ?_
  intro _ _ _ hstep waiter hwaiter
  cases hstep
  exact absurd (hw.symm.trans hwaiter) (by simp)

/-- A completion whose status is accepted settles the future and starts the next
request. -/
theorem complete_settled (h : Healthy lane) {j : Nat} {d : Dispatched} {run : Run}
    {result : Except Exn TurnOutcome} (newRunId : String) (hactive : lane.active = some j)
    (hwaiters : lane.waiters = [{ run := j }]) (hd : lane.runs[j]? = some d)
    (hopen : lane.outcomes[d.outcome]? = some none)
    (hfinish : (if (finalOutcome d result).status = .queued then .ok d.run
      else d.run.transitionTo (finalOutcome d result).status) = (.ok run : Except Exn Run)) :
    StepFine lane (.complete 0 result newRunId) := by
  have hresolve := resolve_of_watched result hwaiters hd hopen
  rw [hfinish] at hresolve
  obtain ⟨lane', heq, hhealthy, htable, houtcomes, hstarts⟩ :=
    andStart_fine (lane.settled d run j (finalOutcome d result))
      (.requests lane.injections.items) newRunId
      (freed_sound h.toSound run (finalOutcome d result) hactive hd)
      (FollowsTable.of_runs_eq rfl)
  have hstep : lane.step (.complete 0 result newRunId) =
      (lane', .ok (.requests lane.injections.items)) := by
    simp only [step, complete, hresolve]
    rw [release_of_settled hactive]
    exact heq
  have hpath := finish_path hfinish
  refine stepFine_of_eq hstep hhealthy
    (FollowsTable.trans (FollowsTable.of_set hd hpath rfl) htable) ?_
  intro _ _ _ hsame waiter hw
  cases hsame
  rw [hwaiters] at hw
  cases hw
  refine ⟨d, hd, hopen, houtcomes, ?_⟩
  have hnext := hstarts rfl
  simpa [freed, settled, fallbackEntries] using hnext

theorem complete_stepFine_iff (h : Healthy lane) (i : Nat) (result : Except Exn TurnOutcome)
    (newRunId : String) :
    StepFine lane (.complete i result newRunId) ↔
      Permitted lane (.complete i result newRunId) := by
  cases hw : lane.waiters[i]? with
  | none =>
      refine ⟨fun _ waiter d hwaiter => ?_, fun _ => complete_absent h hw result newRunId⟩
      exact absurd (hw.symm.trans hwaiter) (by simp)
  | some waiter =>
      obtain ⟨rfl, hactive, hresolved, hwaiters⟩ := h.toSound.waiter hw
      obtain ⟨d, hd, hlive⟩ := h.activeLive waiter.run hactive
      have hwaiters : lane.waiters = [{ run := waiter.run }] := by
        rw [hwaiters, ← hresolved]
      have hopen : lane.outcomes[d.outcome]? = some none := by
        rw [← h.tickets.mem_iff, live, activeRun_eq hactive hd]
        exact List.mem_cons_self
      rw [permitted_complete_iff hw hd, ← finish_ok_iff]
      cases hfinish : (if (finalOutcome d result).status = .queued then .ok d.run
        else d.run.transitionTo (finalOutcome d result).status) with
      | error exn =>
          have hresolve := resolve_of_watched result hwaiters hd hopen
          rw [hfinish] at hresolve
          have hraises : (lane.step (.complete 0 result newRunId)).2 = .error exn := by
            simp [step, complete, hresolve]
          exact ⟨fun hfine => absurd hfine (not_stepFine_of_raises hraises),
            fun ⟨run, hrun⟩ => by cases hrun⟩
      | ok run =>
          exact ⟨fun _ => ⟨run, rfl⟩,
            fun _ => complete_settled h newRunId hactive hwaiters hd hopen hfinish⟩

theorem step_fine_iff (h : Healthy lane) (step : LaneStep) :
    StepFine lane step ↔ Permitted lane step := by
  cases step with
  | submit request front newRunId =>
      exact ⟨fun _ => trivial, fun _ => submit_stepFine h request front newRunId⟩
  | interruptAndSubmit request newRunId =>
      exact interruptAndSubmit_stepFine_iff h request newRunId
  | inject request => exact ⟨fun _ => trivial, fun _ => inject_stepFine h request⟩
  | drainInjections => exact ⟨fun _ => trivial, fun _ => drainInjections_stepFine h⟩
  | cancelRun runId => exact ⟨fun _ => trivial, fun _ => cancelRun_stepFine h runId⟩
  | complete i result newRunId => exact complete_stepFine_iff h i result newRunId

theorem healthy_new (durable : Bool) : Healthy { durable } :=
  ⟨⟨rfl, fun _ h => (by cases h), ⟨List.nodup_nil, by simp [live, activeRun]⟩⟩, fun _ => rfl⟩

/-- A request of one conversation. -/
def request (turnId : String) : TurnRequest where
  message := "hello"
  sessionId := "s"
  conversationId := "c"
  turnId := turnId
  traceId := "t"

/-- The second interrupt of a turn that is still being cancelled. -/
def secondInterrupt : List LaneStep :=
  [.submit (request "a") false "run_1", .interruptAndSubmit (request "b") "run_2",
    .interruptAndSubmit (request "c") "run_3"]

/-- A durable broker that fails to enqueue: the completion thread dies on the
transition from `QUEUED` to `FAILED`, and the lane stays busy with no thread. -/
def durableFailure : List LaneStep :=
  [.submit (request "a") false "run_1", .complete 0 (.error "queue unavailable") "run_2"]

end Lane
end Spine
end CodeCub

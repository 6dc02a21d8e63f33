import CodeCub.Pico.Scheduler
import Mathlib.Data.List.Forall2

/-!
# What a shutdown leaves

From the drain on every queue and mailbox is empty and stays so, because a sealed
scheduler accepts nothing and only a mailbox could refill a queue.  A worker then takes no
further turn, so the turns in flight are among those that the shutdown collected, and when
the last of them is resolved no lane has one.
-/

namespace CodeCub
namespace Pico

namespace Lane

variable {O T : Type}

/-- The lane winds down: nothing waits, no turn was taken, and a turn in flight is the one
from before. -/
structure Winds (before after : Lane O T) : Prop where
  pending : after.pending = []
  mailbox : after.mailbox = []
  taken : after.taken = before.taken
  turn : ∀ turn, after.turn = some turn → ∃ old, before.turn = some old ∧ old.fut = turn.fut

variable {lane : Lane O T}

theorem Winds.refl (hpending : lane.pending = []) (hmailbox : lane.mailbox = []) :
    lane.Winds lane :=
  ⟨hpending, hmailbox, rfl, fun turn hturn => ⟨turn, hturn, rfl⟩⟩

theorem resolve_shape (lane : Lane O T) (fut : Nat) (outcome : Option O) (resolver : Resolver) :
    ∃ resolved, lane.resolve fut outcome resolver = { lane with resolved } := by
  rw [resolve]
  split
  · exact ⟨lane.resolved, rfl⟩
  · exact ⟨_, rfl⟩

theorem resolveAll_shape (lane : Lane O T) (futs : List Nat) (outcome : Option O)
    (resolver : Resolver) :
    ∃ resolved, lane.resolveAll futs outcome resolver = { lane with resolved } := by
  induction futs generalizing lane with
  | nil => exact ⟨lane.resolved, rfl⟩
  | cons fut rest ih =>
      obtain ⟨first, hfirst⟩ := lane.resolve_shape fut outcome resolver
      obtain ⟨later, hlater⟩ := ih { lane with resolved := first }
      refine ⟨later, ?_⟩
      show (lane.resolve fut outcome resolver).resolveAll rest outcome resolver = _
      rw [hfirst, hlater]

theorem Winds.setTurn (hpending : lane.pending = []) (hmailbox : lane.mailbox = [])
    {turn : Turn O} (hturn : lane.turn = some turn) (turn' : Turn O) (hfut : turn'.fut = turn.fut) :
    lane.Winds (lane.setTurn turn') := by
  refine ⟨hpending, hmailbox, rfl, ?_⟩
  intro other hother
  cases hother
  exact ⟨turn, hturn, hfut.symm⟩

theorem winds_cancelTask (hpending : lane.pending = []) (hmailbox : lane.mailbox = []) :
    lane.Winds lane.cancelTask := by
  refine ⟨hpending, hmailbox, rfl, ?_⟩
  intro turn hturn
  obtain ⟨old, hold, hsame⟩ := Option.map_eq_some_iff.mp hturn
  refine ⟨old, hold, ?_⟩
  rw [← hsame]
  split <;> rfl

theorem winds_cancelTurn (hpending : lane.pending = []) (hmailbox : lane.mailbox = [])
    (fut : Nat) : lane.Winds (lane.cancelTurn fut) := by
  have hsame := Winds.refl hpending hmailbox
  rw [cancelTurn]
  split
  · exact hsame
  · rw [hpending, hmailbox]
    simp only [List.map_nil, List.not_mem_nil, if_false]
    split
    · exact winds_cancelTask hpending hmailbox
    · exact hsame

/-- Emptying the queue and the mailbox. -/
theorem winds_drainPending (lane : Lane O T) : lane.Winds lane.drainPending := by
  obtain ⟨resolved, hresolved⟩ := resolveAll_shape { lane with pending := [], mailbox := [] }
    (lane.pending.map Prod.snd ++ lane.mailbox.map Prod.snd) none .dropped
  rw [drainPending, hresolved]
  exact ⟨rfl, rfl, rfl, fun turn hturn => ⟨turn, hturn, rfl⟩⟩

theorem winds_cancel (lane : Lane O T) : lane.Winds lane.cancel := by
  have hdrained := winds_drainPending lane.cancelTask
  refine ⟨hdrained.pending, hdrained.mailbox, hdrained.taken, ?_⟩
  intro turn hturn
  obtain ⟨old, hold, hfut⟩ := hdrained.turn turn hturn
  obtain ⟨older, holder, hsame⟩ := Option.map_eq_some_iff.mp hold
  refine ⟨older, holder, ?_⟩
  rw [← hfut, ← hsame]
  split <;> rfl

theorem winds_takeNext {before : Lane O T} (hpending : lane.pending = [])
    (hmailbox : lane.mailbox = []) (htaken : lane.taken = before.taken)
    (hturn : ∀ turn, lane.turn = some turn → ∃ old, before.turn = some old ∧ old.fut = turn.fut)
    (now : T) : before.Winds (lane.takeNext now) := by
  rw [takeNext, hpending]
  exact ⟨rfl, hmailbox, htaken, hturn⟩

theorem winds_runWorker (hpending : lane.pending = []) (hmailbox : lane.mailbox = []) (now : T) :
    lane.Winds (lane.runWorker now) := by
  have hsame := Winds.refl hpending hmailbox
  rw [runWorker]
  split
  · exact winds_takeNext hpending hmailbox rfl hsame.turn now
  · next turn _ _ =>
      split
      · next result _ =>
          obtain ⟨resolved, hresolved⟩ := lane.resolve_shape turn.fut result.outcome .worker
          rw [closeTurn, hresolved]
          apply winds_takeNext
          · show lane.pending ++ lane.mailbox = []
            rw [hpending, hmailbox]
            rfl
          · rfl
          · rfl
          · intro turn hturn
            cases hturn
      · exact hsame
  · exact hsame

theorem winds_taskStep (hpending : lane.pending = []) (hmailbox : lane.mailbox = [])
    {turn : Turn O} (hturn : lane.turn = some turn) (i : LaneStep O T) :
    lane.Winds (lane.taskStep turn i) := by
  have hsame := Winds.refl hpending hmailbox
  have hset : ∀ turn', turn'.fut = turn.fut → lane.Winds (lane.setTurn turn') :=
    fun turn' hfut => Winds.setTurn hpending hmailbox hturn turn' hfut
  have hfinish : ∀ (turn' : Turn O) result, turn'.fut = turn.fut →
      lane.Winds (lane.finish turn' result) := by
    intro turn' result hfut
    exact { hset { turn' with phase := .done (if turn'.mustCancel then .cancelled else result) }
      hfut with }
  have hsettle : ∀ (turn' : Turn O) outcome, turn'.fut = turn.fut →
      lane.Winds (lane.settleChained turn' outcome) := by
    intro turn' outcome hfut
    obtain ⟨resolved, hresolved⟩ := lane.resolveAll_shape turn'.chained outcome .merged
    rw [settleChained, hresolved]
    exact { hset { turn' with chained := [] } hfut with }
  cases i with
  | beginTurn =>
      have hnext : lane.Winds (lane.beginTurn turn) := by
        rw [beginTurn]
        split
        · exact hfinish turn _ rfl
        · exact hset { turn with phase := .acquiring } rfl
      simp only [taskStep]
      split
      · exact hnext
      · exact hsame
  | acquired =>
      have hnext : lane.Winds (lane.acquired turn) := by
        rw [acquired]
        split
        · exact hfinish turn _ rfl
        · exact hset { turn with phase := .starting } rfl
      simp only [taskStep]
      split
      · exact hnext
      · exact hsame
  | startTurn sinkEnd =>
      simp only [taskStep]
      split
      · cases sinkEnd with
        | completed => exact { hset { turn with phase := .running, started := true } rfl with }
        | failed => exact hfinish turn _ rfl
        | cancelled => exact hfinish turn _ rfl
      · exact hsame
  | drain =>
      simp only [taskStep]
      split
      · exact { hset { turn with
            chained := turn.chained ++ lane.mailbox.map Prod.snd
            merged := turn.merged ++ lane.mailbox.map Prod.snd } rfl with mailbox := rfl }
      · exact hsame
  | deliver =>
      simp only [taskStep]
      split
      · exact hset _ rfl
      · exact hsame
  | endRunner runnerEnd =>
      simp only [taskStep]
      split
      · cases runnerEnd with
        | returned outcome => exact hsettle { turn with phase := .ending outcome } _ rfl
        | raised => exact hset _ rfl
        | cancelled => exact hset _ rfl
      · exact hsame
  | endTurn sinkEnd =>
      simp only [taskStep, endTurn]
      split
      · exact hfinish { turn with terminals := turn.terminals ++ [(.turnEnded, sinkEnd)] } _ rfl
      · have hsettled := hsettle
          { turn with terminals := turn.terminals ++ [(.turnFailed, sinkEnd)] } none rfl
        refine ⟨hsettled.pending, hsettled.mailbox, hsettled.taken, ?_⟩
        intro other hother
        cases hother
        exact ⟨turn, hturn, rfl⟩
      · exact hsame
  | _ => exact hsame

theorem winds_task (hpending : lane.pending = []) (hmailbox : lane.mailbox = [])
    {i : LaneStep O T} (htask : i.isTask = true) : lane.Winds (lane.step i) := by
  have hother := afterTask (P := lane.Winds)
    (fun _ hturn => winds_taskStep hpending hmailbox hturn i) (Winds.refl hpending hmailbox)
  cases i with
  | submit req policy => cases htask
  | cancelTurn fut => cases htask
  | cancelRunning => cases htask
  | drainPending => cases htask
  | worker now => exact winds_runWorker hpending hmailbox now
  | _ => exact hother

end Lane

/-- The turns that the shutdown still has to wait for, once it has collected them. -/
def Shutdown.handles : Shutdown → Option (List (Nat × Nat))
  | .grace running => some running
  | .surviving survivors => some survivors
  | .done => some []
  | _ => none

namespace Scheduler

variable {O T : Type} {expired : T → T → Bool} {s t : Scheduler O T}

/-- Every lane winds down. -/
def Winds (s t : Scheduler O T) : Prop :=
  List.Forall₂ (fun a b => a.lane.Winds b.lane) s.lanes t.lanes

/-- No queue and no mailbox holds anything. -/
def Empty (s : Scheduler O T) : Prop :=
  ∀ object ∈ s.lanes, object.lane.pending = [] ∧ object.lane.mailbox = []

/-- Every turn in flight is one of these. -/
def InFlight (s : Scheduler O T) (handles : List (Nat × Nat)) : Prop :=
  ∀ (i : Nat) object turn, s.lanes[i]? = some object → object.lane.turn = some turn →
    (i, turn.fut) ∈ handles

theorem Empty.refl (h : s.Empty) {object : LaneObject O T} (hobject : object ∈ s.lanes) :
    object.lane.Winds object.lane :=
  Lane.Winds.refl (h object hobject).1 (h object hobject).2

theorem Empty.winds_same (h : s.Empty) : s.Winds s :=
  List.forall₂_same.mpr fun _ hobject => h.refl hobject

theorem Winds.empty (h : s.Winds t) : t.Empty := by
  rw [Empty]
  rw [Winds] at h
  revert h
  generalize s.lanes = a
  generalize t.lanes = b
  intro h
  induction h with
  | nil =>
      intro object hobject
      cases hobject
  | cons hab _ ih =>
      intro object hobject
      rcases List.mem_cons.mp hobject with rfl | hobject
      · exact ⟨hab.pending, hab.mailbox⟩
      · exact ih object hobject

theorem Winds.taken (h : s.Winds t) :
    (t.lanes.map fun object => object.lane.taken) = s.lanes.map fun object => object.lane.taken := by
  rw [Winds] at h
  revert h
  generalize s.lanes = a
  generalize t.lanes = b
  intro h
  induction h with
  | nil => rfl
  | cons hab _ ih => rw [List.map_cons, List.map_cons, hab.taken, ih]

theorem Winds.inFlight (h : s.Winds t) {handles : List (Nat × Nat)} (hs : s.InFlight handles) :
    t.InFlight handles := by
  intro i object turn hobject hturn
  obtain ⟨hlt, rfl⟩ := List.getElem?_eq_some_iff.mp hobject
  have hlt' : i < s.lanes.length := by
    rw [h.length_eq]
    exact hlt
  obtain ⟨old, hold, hfut⟩ := (h.get hlt' hlt).turn turn hturn
  rw [← hfut]
  exact hs i _ old (List.getElem?_eq_getElem hlt') hold

theorem winds_onLane (h : s.Empty) (i : Nat) {f : Lane O T → Lane O T}
    (hf : ∀ object ∈ s.lanes, object.lane.Winds (f object.lane)) : s.Winds (s.onLane i f) := by
  have hmodify : ∀ (lanes : List (LaneObject O T)) (i : Nat),
      (∀ object ∈ lanes, object.lane.Winds object.lane ∧ object.lane.Winds (f object.lane)) →
        List.Forall₂ (fun a b : LaneObject O T => a.lane.Winds b.lane) lanes
          (lanes.modify i fun object => { object with lane := f object.lane }) := by
    intro lanes
    induction lanes with
    | nil =>
        intro i _
        simp
    | cons object rest ih =>
        intro i hlanes
        have hrest : ∀ other ∈ rest, other.lane.Winds other.lane ∧
            other.lane.Winds (f other.lane) := fun other hother =>
          hlanes other (List.mem_cons_of_mem _ hother)
        cases i with
        | zero =>
            rw [List.modify_zero_cons]
            exact .cons (hlanes object List.mem_cons_self).2
              (List.forall₂_same.mpr fun other hother => (hrest other hother).1)
        | succ i =>
            rw [List.modify_succ_cons]
            exact .cons (hlanes object List.mem_cons_self).1 (ih i hrest)
  exact hmodify s.lanes i fun object hobject => ⟨h.refl hobject, hf object hobject⟩

theorem winds_onRegistered {f : Lane O T → Lane O T}
    (hf : ∀ object ∈ s.lanes, if object.registered then object.lane.Winds (f object.lane)
      else object.lane.Winds object.lane) : s.Winds (s.onRegistered f) := by
  rw [Winds, onRegistered, List.forall₂_map_right_iff, List.forall₂_same]
  intro object hobject
  have hobject := hf object hobject
  split at hobject
  · next hregistered =>
      rw [if_pos hregistered]
      exact hobject
  · next hregistered =>
      rw [if_neg hregistered]
      exact hobject

/-- The drain empties the registered lanes; the others were silent. -/
theorem winds_drain (h : s.Inv) : s.Winds s.drain := by
  apply winds_onRegistered
  intro object hobject
  split
  · exact object.lane.winds_drainPending
  · next hretired =>
      have hlane := h.lanes object hobject
      have hsilent := hlane.silent (h.retired object hobject (Bool.eq_false_iff.mpr hretired))
      apply Lane.Winds.refl
      · by_contra hsome
        exact hlane.awake hsome hsilent.1
      · by_contra hsome
        have hturn := hlane.aimed hsome
        rw [hsilent.2] at hturn
        cases hturn

theorem winds_cancelRunning (h : s.Empty) : s.Winds (s.onRegistered Lane.cancelRunning) := by
  apply winds_onRegistered
  intro object hobject
  split
  · exact Lane.winds_cancelTask (h object hobject).1 (h object hobject).2
  · exact h.refl hobject

theorem winds_sweep (h : s.Empty) (now : T) : s.Winds (s.sweep expired now) := by
  rw [Winds, sweep, List.forall₂_map_right_iff, List.forall₂_same]
  intro object hobject
  split
  · split <;> exact h.refl hobject
  · exact h.refl hobject

/-! ## The phases of the shutdown -/

structure Sealed (s : Scheduler O T) : Prop where
  base : s.Inv
  draining : s.shutdown.isSome = true → s.draining = true
  drained : ∀ phase, s.shutdown = some phase → phase ≠ .created →
    s.Empty ∧ s.takenAtDrain = some (s.lanes.map fun object => object.lane.taken)
  inFlight : ∀ phase handles, s.shutdown = some phase → phase.handles = some handles →
    s.InFlight handles
  callers : ∀ caller ∈ s.callers, caller.ended = true → s.shutdown = some .done

/-- A step that has nothing to do with the shutdown, and winds down drained lanes. -/
theorem Sealed.calm (h : s.Sealed) (hbase : t.Inv) (hwinds : s.Empty → s.draining = true → s.Winds t)
    (hdraining : t.draining = s.draining) (hshutdown : t.shutdown = s.shutdown)
    (htaken : t.takenAtDrain = s.takenAtDrain) (hcallers : t.callers = s.callers) : t.Sealed := by
  have hwinds' : ∀ phase, s.shutdown = some phase → phase ≠ .created → s.Winds t := by
    intro phase hphase hcreated
    exact hwinds (h.drained phase hphase hcreated).1 (h.draining (by rw [hphase]; rfl))
  refine
    { base := hbase, draining := ?_, drained := ?_, inFlight := ?_, callers := ?_ }
  · rw [hshutdown, hdraining]
    exact h.draining
  · intro phase hphase hcreated
    rw [hshutdown] at hphase
    have hw := hwinds' phase hphase hcreated
    rw [htaken, hw.taken]
    exact ⟨hw.empty, (h.drained phase hphase hcreated).2⟩
  · intro phase handles hphase hhandles
    rw [hshutdown] at hphase
    have hcreated : phase ≠ .created := by
      intro hcreated
      rw [hcreated] at hhandles
      cases hhandles
    exact (hwinds' phase hphase hcreated).inFlight (h.inFlight phase handles hphase hhandles)
  · rw [hcallers, hshutdown]
    exact h.callers

/-- The turns that are collected are those in flight. -/
theorem inFlight_runningTurns (h : s.Inv) : s.InFlight s.runningTurns := by
  intro i object turn hobject hturn
  have hregistered := h.registered (List.mem_of_getElem? hobject) (by rw [hturn]; rfl)
  rw [runningTurns, List.mem_filterMap]
  refine ⟨(object, i), ?_, ?_⟩
  · rw [List.mem_zipIdx_iff_getElem?]
    exact hobject
  · simp [hregistered, hturn]

/-- A turn in flight is not resolved. -/
theorem Inv.turn_unresolved (h : s.Inv) {i : Nat} {object : LaneObject O T} {turn : Turn O}
    (hobject : s.lanes[i]? = some object) (hturn : object.lane.turn = some turn) :
    s.isResolved (i, turn.fut) = false := by
  have hlane := h.lanes object (List.mem_of_getElem? hobject)
  have hnot : turn.fut ∉ object.lane.resolved.map Resolution.fut := by
    apply hlane.unresolved (Lane.mem_waiting_of_turnFuts _)
    rw [Lane.turnFuts_of_turn hturn]
    exact List.mem_cons_self
  simpa [isResolved, hobject, Lane.isResolved] using hnot

/-- The turns in flight are among those that are not resolved. -/
theorem InFlight.filter (hs : s.Inv) {handles : List (Nat × Nat)} (h : s.InFlight handles) :
    s.InFlight (handles.filter fun handle => !s.isResolved handle) := by
  intro i object turn hobject hturn
  rw [List.mem_filter]
  refine ⟨h i object turn hobject hturn, ?_⟩
  rw [hs.turn_unresolved hobject hturn]
  rfl

/-- The state after the drain, before the turns in flight are known. -/
structure Drained (s : Scheduler O T) : Prop where
  base : s.Inv
  draining : s.draining = true
  empty : s.Empty
  taken : s.takenAtDrain = some (s.lanes.map fun object => object.lane.taken)
  waiting : ∀ caller ∈ s.callers, caller.ended = false

theorem Drained.cascade (h : s.Drained) {running : List (Nat × Nat)}
    (hrunning : s.InFlight running) : (s.cascade running).Sealed := by
  have hwinds := winds_cancelRunning h.empty
  have hflight := (hwinds.inFlight hrunning).filter h.base.cancelRunning
  refine
    { base := h.base.cascade running, draining := fun _ => h.draining, drained := ?_
      inFlight := ?_, callers := ?_ }
  · intro phase _ _
    refine ⟨hwinds.empty, ?_⟩
    show s.takenAtDrain = some ((s.onRegistered Lane.cancelRunning).lanes.map _)
    rw [hwinds.taken]
    exact h.taken
  · intro phase handles hphase hhandles
    simp only [Scheduler.cascade, Option.some.injEq] at hphase
    subst hphase
    split at hhandles
    · next hnone =>
        cases hhandles
        rw [← hnone]
        exact hflight
    · cases hhandles
      exact hflight
  · intro caller hcaller hended
    rw [h.waiting caller hcaller] at hended
    cases hended

theorem Drained.collect (h : s.Drained) : s.collect.Sealed := by
  have hflight := inFlight_runningTurns h.base
  rw [Scheduler.collect]
  split
  · next hnone =>
      rw [hnone] at hflight
      exact h.cascade hflight
  · refine
      { base := { h.base with }, draining := fun _ => h.draining
        drained := fun _ _ _ => ⟨h.empty, h.taken⟩, inFlight := ?_, callers := ?_ }
    · intro phase handles hphase hhandles
      cases hphase
      cases hhandles
      exact hflight
    · intro caller hcaller hended
      rw [h.waiting caller hcaller] at hended
      cases hended

theorem Sealed.waiting (h : s.Sealed) (hphase : s.shutdown ≠ some .done) :
    ∀ caller ∈ s.callers, caller.ended = false := by
  intro caller hcaller
  cases hended : caller.ended with
  | false => rfl
  | true => exact absurd (h.callers caller hcaller hended) hphase

theorem Sealed.drain (h : s.Sealed) (hcreated : s.shutdown = some .created) : s.drain.Drained :=
  { base := h.base.drain
    draining := h.draining (by rw [hcreated]; rfl)
    empty := (winds_drain h.base).empty
    taken := rfl
    waiting := h.waiting (by simp [hcreated]) }

theorem Sealed.toDrained (h : s.Sealed) {phase : Shutdown} (hphase : s.shutdown = some phase)
    (hcreated : phase ≠ .created) (hdone : phase ≠ .done) : s.Drained :=
  { base := h.base
    draining := h.draining (by rw [hphase]; rfl)
    empty := (h.drained phase hphase hcreated).1
    taken := (h.drained phase hphase hcreated).2
    waiting := h.waiting (by rw [hphase, ne_eq, Option.some.injEq]; exact hdone) }

/-- When the last survivor is resolved no turn is in flight. -/
theorem Sealed.survived (h : s.Sealed) {survivors : List (Nat × Nat)}
    (hphase : s.shutdown = some (.surviving survivors))
    (hall : survivors.all s.isResolved = true) : Sealed { s with shutdown := some .done } := by
  have hflight := h.inFlight _ _ hphase rfl
  have hdrained := h.toDrained hphase (by simp) (by simp)
  refine
    { base := { h.base with }, draining := fun _ => hdrained.draining
      drained := fun _ _ _ => ⟨hdrained.empty, hdrained.taken⟩, inFlight := ?_
      callers := fun _ _ _ => rfl }
  intro phase handles hphase hhandles i object turn hobject hturn
  have hresolved := List.all_eq_true.mp hall _ (hflight i object turn hobject hturn)
  rw [h.base.turn_unresolved hobject hturn] at hresolved
  cases hresolved

theorem Sealed.finishShutdown (h : s.Sealed) : s.finishShutdown.Sealed := by
  rw [Scheduler.finishShutdown]
  split
  · next hcreated =>
      have hdrained := h.drain hcreated
      split
      · refine
          { base := { hdrained.base with }, draining := fun _ => hdrained.draining
            drained := fun _ _ _ => ⟨hdrained.empty, hdrained.taken⟩, inFlight := ?_
            callers := ?_ }
        · intro phase handles hphase hhandles
          cases hphase
          cases hhandles
        · intro caller hcaller hended
          rw [hdrained.waiting caller hcaller] at hended
          cases hended
      · exact hdrained.collect
  · next hstopping =>
      split
      · exact h
      · exact (h.toDrained hstopping (by simp) (by simp)).collect
  · next running hgrace =>
      exact (h.toDrained hgrace (by simp) (by simp)).cascade (h.inFlight _ _ hgrace rfl)
  · next survivors hsurviving =>
      split
      · next hall => exact h.survived hsurviving hall
      · exact h
  · exact h

theorem Sealed.callShutdown (h : s.Sealed) : s.callShutdown.Sealed := by
  simp only [Scheduler.callShutdown]
  cases hshutdown : s.shutdown with
  | none =>
      have hwaiting := h.waiting (by simp [hshutdown])
      refine
        { base := { h.base with }, draining := fun _ => rfl, drained := ?_, inFlight := ?_
          callers := ?_ }
      · intro phase hphase hcreated
        cases hphase
        exact absurd rfl hcreated
      · intro phase handles hphase hhandles
        cases hphase
        cases hhandles
      · intro caller hcaller hended
        rcases List.mem_append.mp hcaller with hold | hnew
        · rw [hwaiting caller hold] at hended
          cases hended
        · rw [List.mem_singleton.mp hnew] at hended
          cases hended
  | some phase =>
      refine
        { base := { h.base with }, draining := h.draining, drained := h.drained
          inFlight := h.inFlight, callers := ?_ }
      intro caller hcaller hended
      rcases List.mem_append.mp hcaller with hold | hnew
      · exact h.callers caller hold hended
      · rw [List.mem_singleton.mp hnew] at hended
        cases hended

theorem Sealed.barrier (h : s.Sealed) (k : Nat) (interrupted : Bool) :
    (s.barrier k interrupted).Sealed := by
  refine
    { base := { h.base with }, draining := h.draining, drained := h.drained
      inFlight := h.inFlight, callers := ?_ }
  intro caller hcaller hended
  obtain ⟨j, hj⟩ := List.getElem?_of_mem hcaller
  simp only [Scheduler.barrier, List.getElem?_modify] at hj
  split at hj
  · obtain ⟨old, hold, rfl⟩ := Option.map_eq_some_iff.mp hj
    split at hended
    · exact h.callers old (List.mem_of_getElem? hold) hended
    · exact of_decide_eq_true hended
  · simp only [id_map'] at hj
    exact h.callers caller (List.mem_of_getElem? hj) hended

theorem submit_shape (s : Scheduler O T) (req : TurnRequest) :
    ∃ lanes reaper, (s.submit req).1 = { s with lanes, reaper } := by
  rw [Scheduler.submit]
  split
  · exact ⟨s.lanes, s.reaper, rfl⟩
  · rw [ensureLane]
    cases s.laneIndex (conversationId req) with
    | some i => exact ⟨_, true, rfl⟩
    | none => exact ⟨_, true, rfl⟩

theorem Sealed.step (h : s.Sealed) (i : SchedulerStep O T) : (s.step expired i).Sealed := by
  have hbase : (s.step expired i).Inv := h.base.step i
  cases i with
  | submit req =>
      obtain ⟨lanes, reaper, hshape⟩ := s.submit_shape req
      refine h.calm hbase ?_ ?_ ?_ ?_ ?_
      · intro hempty hdraining
        rw [Scheduler.step, Scheduler.submit, if_pos hdraining]
        exact hempty.winds_same
      all_goals
        rw [Scheduler.step, hshape]
  | cancelHandle i fut =>
      refine h.calm hbase ?_ rfl rfl rfl rfl
      intro hempty _
      exact winds_onLane hempty i fun object hobject =>
        Lane.winds_cancelTurn (hempty object hobject).1 (hempty object hobject).2 fut
  | cancelConversation conversation =>
      refine h.calm hbase ?_ ?_ ?_ ?_ ?_
      · intro hempty _
        rw [Scheduler.step, cancelConversation]
        split
        · exact winds_onLane hempty _ fun object _ => object.lane.winds_cancel
        · exact hempty.winds_same
      all_goals
        rw [Scheduler.step, cancelConversation]
        split <;> rfl
  | sweep now => exact h.calm hbase (fun hempty _ => winds_sweep hempty now) rfl rfl rfl rfl
  | task i step =>
      refine h.calm hbase ?_ ?_ ?_ ?_ ?_
      · intro hempty _
        rw [Scheduler.step]
        split
        · next htask =>
            exact winds_onLane hempty i fun object hobject =>
              Lane.winds_task (hempty object hobject).1 (hempty object hobject).2 htask
        · exact hempty.winds_same
      all_goals
        rw [Scheduler.step]
        split <;> rfl
  | callShutdown => exact h.callShutdown
  | finishShutdown => exact h.finishShutdown
  | reaperEnds => exact h.calm hbase (fun hempty _ => hempty.winds_same) rfl rfl rfl rfl
  | barrier k interrupted => exact h.barrier k interrupted

/-- A turn is running and another one queued when the scheduler is shut down. -/
def busyShutdown : List (SchedulerStep Unit Nat) :=
  [.submit {}, .task 0 (.worker 0), .task 0 .beginTurn, .task 0 .acquired,
    .task 0 (.startTurn .completed), .submit {}, .callShutdown, .finishShutdown, .reaperEnds,
    .finishShutdown, .barrier 0 true, .finishShutdown, .task 0 .deliver,
    .task 0 (.endRunner .cancelled), .task 0 (.endTurn .completed), .task 0 (.worker 1),
    .finishShutdown, .barrier 0 false]

end Scheduler

end Pico
end CodeCub

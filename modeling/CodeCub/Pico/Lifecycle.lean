import CodeCub.Pico.Shutdown

/-!
# What is said about a turn

The sink, the future of a turn and the futures merged into it are told how the turn ended:
the merged ones before the terminal event, the host after it.  The three agree as long as
no cancellation comes out of the call of the sink for the terminal event, or is left behind
by it.  A cancellation there takes the outcome back from the host, when the others have
it already.
-/

namespace CodeCub
namespace Pico

variable {O T : Type}

def Turn.outcome (turn : Turn O) : Option O :=
  match turn.phase with
  | .done result => result.outcome
  | _ => none

namespace Lane

/-- The future was resolved with the outcome. -/
def Told (lane : Lane O T) (fut : Nat) (outcome : Option O) : Prop :=
  ∃ r ∈ lane.resolved, r.fut = fut ∧ r.outcome = outcome

/-- One terminal event that was not cancelled, and the same outcome for everybody.  The
host is resolved by the worker, in the step that takes the turn away. -/
structure Agreed (lane : Lane O T) (turn : Turn O) : Prop where
  announced : ∃ kind how, turn.terminals = [(kind, how)] ∧ how ≠ .cancelled ∧
    (turn.outcome.isSome = true ↔ kind = .turnEnded)
  merged : ∀ fut ∈ turn.merged, lane.Told fut turn.outcome
  host : lane.turn = some turn ∨ lane.Told turn.fut turn.outcome

/-- Every turn that was started and is over has its story straight. -/
def LifecyclesAgree (lane : Lane O T) : Prop :=
  ∀ turn ∈ lane.finished, turn.started = true → lane.Agreed turn

/-- What is true of the current turn, phase by phase. -/
def PhaseOk (lane : Lane O T) (turn : Turn O) : Prop :=
  match turn.phase with
  | .created => turn.started = false ∧ turn.merged = turn.chained ∧ turn.terminals = []
  | .acquiring => turn.started = false ∧ turn.merged = turn.chained ∧ turn.terminals = []
  | .starting => turn.started = false ∧ turn.merged = turn.chained ∧ turn.terminals = []
  | .running => turn.started = true ∧ turn.merged = turn.chained ∧ turn.terminals = []
  | .failing _ => turn.started = true ∧ turn.merged = turn.chained ∧ turn.terminals = []
  | .ending outcome =>
      turn.started = true ∧ (∀ fut ∈ turn.merged, lane.Told fut (some outcome)) ∧
        turn.terminals = []
  | .done _ => turn ∈ lane.finished

structure Lived (lane : Lane O T) : Prop where
  inv : lane.Inv
  phase : ∀ turn, lane.turn = some turn → lane.PhaseOk turn
  past : ∀ turn ∈ lane.finished, turn.isDone = true
  agree : lane.LifecyclesAgree

/-- The turns that are over stay as they are, and so do the resolved futures. -/
structure Keeps (before after : Lane O T) : Prop where
  finished : after.finished = before.finished
  resolved : before.resolved ⊆ after.resolved
  past : ∀ turn, before.turn = some turn → turn.isDone = true →
    after.turn = some turn ∨ after.Told turn.fut turn.outcome

variable {lane after : Lane O T} {turn : Turn O}

theorem Told.mono {fut : Nat} {outcome : Option O} (h : lane.Told fut outcome)
    (hresolved : lane.resolved ⊆ after.resolved) : after.Told fut outcome := by
  obtain ⟨r, hr, hsame⟩ := h
  exact ⟨r, hresolved hr, hsame⟩

theorem PhaseOk.mono (h : lane.PhaseOk turn) (hresolved : lane.resolved ⊆ after.resolved)
    (hfinished : after.finished = lane.finished) : after.PhaseOk turn := by
  unfold PhaseOk at h ⊢
  cases hphase : turn.phase with
  | ending outcome =>
      rw [hphase] at h
      exact ⟨h.1, fun fut hfut => (h.2.1 fut hfut).mono hresolved, h.2.2⟩
  | done result =>
      rw [hphase] at h
      rw [hfinished]
      exact h
  | _ =>
      rw [hphase] at h
      exact h

theorem Keeps.of_live (hturn : lane.turn = some turn) (hlive : turn.isDone = false)
    (hresolved : lane.resolved ⊆ after.resolved) (hfinished : after.finished = lane.finished) :
    lane.Keeps after := by
  refine ⟨hfinished, hresolved, ?_⟩
  intro other hother hdone
  rw [hturn] at hother
  cases hother
  rw [hlive] at hdone
  cases hdone

theorem Keeps.of_same (hturn : after.turn = lane.turn) (hresolved : lane.resolved ⊆ after.resolved)
    (hfinished : after.finished = lane.finished) : lane.Keeps after :=
  ⟨hfinished, hresolved, fun _ hother _ => Or.inl (hturn.trans hother)⟩

theorem Lived.agreed_of_keeps (h : lane.Lived) (hkeeps : lane.Keeps after) :
    after.LifecyclesAgree := by
  intro other hother hstarted
  rw [hkeeps.finished] at hother
  obtain ⟨hannounced, hmerged, hhost⟩ := h.agree other hother hstarted
  refine ⟨hannounced, fun fut hfut => (hmerged fut hfut).mono hkeeps.resolved, ?_⟩
  rcases hhost with hcurrent | htold
  · exact hkeeps.past other hcurrent (h.past other hother)
  · exact Or.inr (htold.mono hkeeps.resolved)

/-- A step that ends no turn. -/
theorem Lived.keep (h : lane.Lived) (hinv : after.Inv) (hkeeps : lane.Keeps after)
    (hphase : ∀ turn, after.turn = some turn → after.PhaseOk turn) : after.Lived where
  inv := hinv
  phase := hphase
  past := by
    rw [hkeeps.finished]
    exact h.past
  agree := h.agreed_of_keeps hkeeps

/-- A step of the environment: the current turn is the one from before. -/
theorem Lived.same (h : lane.Lived) (hinv : after.Inv) (hturn : after.turn = lane.turn)
    (hresolved : lane.resolved ⊆ after.resolved) (hfinished : after.finished = lane.finished) :
    after.Lived := by
  apply h.keep hinv (Keeps.of_same hturn hresolved hfinished)
  intro turn hsome
  rw [hturn] at hsome
  exact (h.phase turn hsome).mono hresolved hfinished

/-- The turn moves to a later phase. -/
theorem Lived.retouch (h : lane.Lived) (hturn : lane.turn = some turn)
    (hlive : turn.isDone = false) {turn' : Turn O} (hinv : (lane.setTurn turn').Inv)
    (hphase : lane.PhaseOk turn') : (lane.setTurn turn').Lived := by
  apply h.keep hinv (Keeps.of_live hturn hlive (List.Subset.refl _) rfl)
  intro other hother
  cases hother
  exact hphase.mono (List.Subset.refl _) rfl

/-- The turn is over. -/
theorem Lived.ended (h : lane.Lived) (hturn : lane.turn = some turn) (hlive : turn.isDone = false)
    (hinv : after.Inv) (hresolved : lane.resolved ⊆ after.resolved) {turn' : Turn O}
    (hturn' : after.turn = some turn') (hdone : turn'.isDone = true)
    (hfinished : after.finished = lane.finished ++ [turn'])
    (hagreed : turn'.started = true → after.Agreed turn') : after.Lived := by
  have hkept : LifecyclesAgree { after with finished := lane.finished } :=
    h.agreed_of_keeps (Keeps.of_live hturn hlive hresolved rfl)
  refine ⟨hinv, ?_, ?_, ?_⟩
  · intro other hother
    rw [hturn'] at hother
    cases hother
    have hmem : turn' ∈ after.finished := by
      rw [hfinished]
      exact List.mem_append_right _ (List.mem_singleton_self _)
    unfold PhaseOk
    unfold Turn.isDone at hdone
    cases hphase : turn'.phase with
    | done result => exact hmem
    | _ =>
        rw [hphase] at hdone
        cases hdone
  · intro other hother
    rw [hfinished, List.mem_append, List.mem_singleton] at hother
    rcases hother with hold | rfl
    · exact h.past other hold
    · exact hdone
  · intro other hother hstarted
    rw [hfinished, List.mem_append, List.mem_singleton] at hother
    rcases hother with hold | rfl
    · obtain ⟨hannounced, hmerged, hhost⟩ := hkept other hold hstarted
      exact ⟨hannounced, hmerged, hhost⟩
    · exact hagreed hstarted

/-! ## The calls -/

theorem resolve_keeps (lane : Lane O T) (fut : Nat) (outcome : Option O) (resolver : Resolver) :
    lane.resolved ⊆ (lane.resolve fut outcome resolver).resolved := by
  rw [resolve]
  split
  · exact List.Subset.refl _
  · exact List.subset_append_left _ _

theorem resolveAll_keeps (lane : Lane O T) (futs : List Nat) (outcome : Option O)
    (resolver : Resolver) :
    lane.resolved ⊆ (lane.resolveAll futs outcome resolver).resolved := by
  induction futs generalizing lane with
  | nil => exact List.Subset.refl _
  | cons fut rest ih => exact List.Subset.trans (resolve_keeps lane fut outcome resolver) (ih _)

/-- A future that is not resolved is told. -/
theorem told_resolveAll (h : lane.Inv) {futs : List Nat} (hnodup : futs.Nodup)
    (hwaiting : ∀ fut ∈ futs, fut ∈ lane.waiting) (outcome : Option O) (resolver : Resolver) :
    ∀ fut ∈ futs, (lane.resolveAll futs outcome resolver).Told fut outcome := by
  intro fut hfut
  rw [resolveAll_eq hnodup fun other hother => h.unresolved (hwaiting other hother)]
  refine ⟨{ fut, outcome, resolver }, List.mem_append_right _ ?_, rfl, rfl⟩
  exact List.mem_map_of_mem hfut

theorem Lived.cancelTask (h : lane.Lived) : lane.cancelTask.Lived := by
  have hinv := h.inv.cancelTask
  cases hturn : lane.turn with
  | none =>
      refine h.same hinv ?_ (List.Subset.refl _) rfl
      rw [Lane.cancelTask, hturn]
      rfl
  | some turn =>
      cases hdone : turn.isDone with
      | true =>
          refine h.same hinv ?_ (List.Subset.refl _) rfl
          rw [Lane.cancelTask, hturn, Option.map_some, if_pos hdone]
      | false =>
          have hcancelled : lane.cancelTask = lane.setTurn { turn with mustCancel := true } := by
            rw [Lane.cancelTask, hturn, Option.map_some, hdone]
            rfl
          rw [hcancelled] at hinv ⊢
          refine h.retouch hturn hdone hinv ?_
          have hphase := h.phase turn hturn
          unfold PhaseOk at hphase ⊢
          unfold Turn.isDone at hdone
          cases hat : turn.phase with
          | done result =>
              rw [hat] at hdone
              cases hdone
          | _ =>
              rw [hat] at hphase
              exact hphase

theorem Lived.submit (h : lane.Lived) (req : TurnRequest) (policy : BusyPolicy) :
    (lane.submit req policy).Lived := by
  have hinv := h.inv.submit req policy
  simp only [Lane.submit] at hinv ⊢
  split at hinv
  · next hinterrupt =>
      rw [if_pos hinterrupt]
      exact h.cancelTask.same hinv rfl (List.Subset.refl _) rfl
  · next hquiet =>
      rw [if_neg hquiet]
      split at hinv
      · next hinject =>
          rw [if_pos hinject]
          exact h.same hinv rfl (List.Subset.refl _) rfl
      · next hnone =>
          rw [if_neg hnone]
          exact h.same hinv rfl (List.Subset.refl _) rfl

/-- A future is resolved, and the queue and the mailbox may have changed. -/
theorem Lived.resolve (h : lane.Lived) {fut : Nat} {outcome : Option O} {resolver : Resolver}
    (hturn : after.turn = lane.turn) (hresolved : after.resolved = lane.resolved)
    (hfinished : after.finished = lane.finished)
    (hinv : (after.resolve fut outcome resolver).Inv) :
    (after.resolve fut outcome resolver).Lived := by
  have hkeeps := after.resolve_keeps fut outcome resolver
  obtain ⟨resolved, hshape⟩ := after.resolve_shape fut outcome resolver
  rw [hresolved] at hkeeps
  exact h.same hinv (by rw [hshape]; exact hturn) hkeeps (by rw [hshape]; exact hfinished)

theorem Lived.cancelTurn (h : lane.Lived) (fut : Nat) : (lane.cancelTurn fut).Lived := by
  have hinv := h.inv.cancelTurn fut
  rw [Lane.cancelTurn] at hinv ⊢
  split
  · exact h
  · next hopen =>
      rw [if_neg hopen] at hinv
      split
      · next hpending =>
          rw [if_pos hpending] at hinv
          exact h.resolve rfl rfl rfl hinv
      · next hqueued =>
          rw [if_neg hqueued] at hinv
          split
          · next hmailbox =>
              rw [if_pos hmailbox] at hinv
              exact h.resolve rfl rfl rfl hinv
          · split
            · exact h.cancelTask
            · exact h

theorem Lived.drainPending (h : lane.Lived) : lane.drainPending.Lived := by
  have hinv := h.inv.drainPending
  obtain ⟨resolved, hshape⟩ := { lane with pending := [], mailbox := [] }.resolveAll_shape
    (lane.pending.map Prod.snd ++ lane.mailbox.map Prod.snd) none .dropped
  have hdrained : lane.drainPending = { lane with pending := [], mailbox := [], resolved } := hshape
  refine h.same hinv (by rw [hdrained]) ?_ (by rw [hdrained])
  exact { lane with pending := [], mailbox := [] }.resolveAll_keeps _ none .dropped

/-! ## The worker -/

theorem phaseOk_new (req : TurnRequest) (fut : Nat) : after.PhaseOk { req, fut } :=
  ⟨rfl, rfl, rfl⟩

theorem Lived.takeNext (h : lane.Lived) (hkeeps : lane.Keeps after) (hnone : after.turn = none)
    {now : T} (hinv : (after.takeNext now).Inv) : (after.takeNext now).Lived := by
  rw [Lane.takeNext] at hinv ⊢
  split at hinv
  · refine h.keep hinv ⟨hkeeps.finished, hkeeps.resolved, hkeeps.past⟩ ?_
    intro turn hturn
    rw [hnone] at hturn
    cases hturn
  · refine h.keep hinv ⟨hkeeps.finished, hkeeps.resolved, ?_⟩ ?_
    · intro turn hturn hdone
      rcases hkeeps.past turn hturn hdone with hsame | htold
      · rw [hnone] at hsame
        cases hsame
      · exact Or.inr htold
    · rintro turn hturn
      cases hturn
      exact phaseOk_new _ _

/-- The future of the turn is resolved with its outcome. -/
theorem closeTurn_keeps (h : lane.Inv) (hturn : lane.turn = some turn) {result : TaskResult O}
    (hdone : turn.phase = .done result) : lane.Keeps (lane.closeTurn turn result) := by
  have hnew : turn.fut ∉ lane.resolved.map Resolution.fut := by
    apply h.unresolved (mem_waiting_of_turnFuts _)
    rw [turnFuts_of_turn hturn]
    exact List.mem_cons_self
  rw [closeTurn, resolve_eq hnew]
  refine ⟨rfl, List.subset_append_left _ _, ?_⟩
  intro other hother _
  rw [hturn] at hother
  cases hother
  refine Or.inr ⟨_, List.mem_append_right _ (List.mem_singleton_self _), rfl, ?_⟩
  rw [Turn.outcome, hdone]

theorem Lived.runWorker (h : lane.Lived) (now : T) : (lane.runWorker now).Lived := by
  have hinv := h.inv.runWorker now
  rw [Lane.runWorker] at hinv ⊢
  split at hinv
  · next hready =>
      refine h.takeNext (Keeps.of_same rfl (List.Subset.refl _) rfl) ?_ hinv
      cases hturn : lane.turn with
      | none => rfl
      | some turn =>
          have hawaiting := h.inv.awaited.mp (by rw [hturn]; rfl)
          rw [hready] at hawaiting
          cases hawaiting
  · next turn hawaiting hturn =>
      split at hinv
      · next result hdone =>
          exact h.takeNext (closeTurn_keeps h.inv hturn hdone) rfl hinv
      · exact h
  · exact h

/-! ## The task of the turn -/

theorem isDone_of_phase {phase : Phase O} (h : turn.phase = phase)
    (hlive : Turn.isDone { turn with phase := phase } = false) : turn.isDone = false := by
  subst h
  exact hlive

/-- The coroutine is over; `mid` is the lane when it returns. -/
theorem Lived.finish (h : lane.Lived) (hturn : lane.turn = some turn)
    (hlive : turn.isDone = false) {mid : Lane O T} (hfinished : mid.finished = lane.finished)
    (hresolved : lane.resolved ⊆ mid.resolved) {turn' : Turn O} {result : TaskResult O}
    (hinv : (mid.finish turn' result).Inv)
    (hannounced : turn'.started = true → ∃ kind how, turn'.terminals = [(kind, how)] ∧
      how ≠ .cancelled ∧
        ((if turn'.mustCancel then .cancelled else result).outcome.isSome = true ↔
          kind = .turnEnded))
    (hmerged : turn'.started = true → ∀ fut ∈ turn'.merged,
      mid.Told fut (if turn'.mustCancel then .cancelled else result).outcome) :
    (mid.finish turn' result).Lived := by
  refine h.ended hturn hlive hinv hresolved rfl rfl ?_ ?_
  · show mid.finished ++ [_] = _
    rw [hfinished]
  · intro hstarted
    exact ⟨hannounced hstarted, hmerged hstarted, Or.inl rfl⟩

theorem Lived.finishUnstarted (h : lane.Lived) (hturn : lane.turn = some turn)
    (hlive : turn.isDone = false) (hunstarted : turn.started = false) {result : TaskResult O}
    (hinv : (lane.finish turn result).Inv) : (lane.finish turn result).Lived := by
  have hnever : turn.started ≠ true := by
    rw [hunstarted]
    exact Bool.false_ne_true
  exact h.finish hturn hlive rfl (List.Subset.refl _) hinv (fun hstarted => absurd hstarted hnever)
    (fun hstarted => absurd hstarted hnever)

/-- A turn that was not started moves on, unless it was cancelled. -/
theorem Lived.advance (h : lane.Lived) (hturn : lane.turn = some turn)
    (hlive : turn.isDone = false) (hunstarted : turn.started = false) {phase : Phase O}
    (hphase : lane.PhaseOk { turn with phase })
    (hinv : (if turn.mustCancel = true then lane.finish turn .cancelled
      else lane.setTurn { turn with phase }).Inv) :
    (if turn.mustCancel = true then lane.finish turn .cancelled
      else lane.setTurn { turn with phase }).Lived := by
  split
  · next hcancel =>
      rw [if_pos hcancel] at hinv
      exact h.finishUnstarted hturn hlive hunstarted hinv
  · next hcancel =>
      rw [if_neg hcancel] at hinv
      exact h.retouch hturn hlive hinv hphase

theorem PhaseOk.unstarted (h : lane.PhaseOk turn)
    (hphase : turn.phase = .created ∨ turn.phase = .acquiring ∨ turn.phase = .starting) :
    turn.started = false ∧ turn.merged = turn.chained ∧ turn.terminals = [] := by
  unfold PhaseOk at h
  rcases hphase with hphase | hphase | hphase
  · rw [hphase] at h
    exact h
  · rw [hphase] at h
    exact h
  · rw [hphase] at h
    exact h

theorem Lived.startTurn (h : lane.Lived) (hturn : lane.turn = some turn)
    (hphase : turn.phase = .starting) (sinkEnd : SinkEnd)
    (hinv : (lane.startTurn turn sinkEnd).Inv) : (lane.startTurn turn sinkEnd).Lived := by
  have hlive := isDone_of_phase hphase rfl
  obtain ⟨hunstarted, hmerged, hterminals⟩ :=
    (h.phase turn hturn).unstarted (Or.inr (Or.inr hphase))
  cases sinkEnd with
  | completed =>
      apply h.keep hinv (Keeps.of_live hturn hlive (List.Subset.refl _) rfl)
      intro other hother
      cases hother
      exact ⟨rfl, hmerged, hterminals⟩
  | failed => exact h.finishUnstarted hturn hlive hunstarted hinv
  | cancelled => exact h.finishUnstarted hturn hlive hunstarted hinv

theorem Lived.drain (h : lane.Lived) (hturn : lane.turn = some turn)
    (hphase : turn.phase = .running) : (lane.drain turn).Lived := by
  have hlive := isDone_of_phase hphase rfl
  have hrunning := h.phase turn hturn
  unfold PhaseOk at hrunning
  rw [hphase] at hrunning
  apply h.keep (h.inv.drain hturn hphase) (Keeps.of_live hturn hlive (List.Subset.refl _) rfl)
  intro other hother
  cases hother
  unfold PhaseOk
  rw [hphase]
  refine ⟨hrunning.1, ?_, hrunning.2.2⟩
  rw [hrunning.2.1]

/-- The futures that the turn chained are told its outcome. -/
theorem told_settled (h : lane.Inv) (hturn : lane.turn = some turn) (turn' : Turn O)
    (hchained : turn'.chained = turn.chained) (outcome : Option O) :
    lane.resolved ⊆ (lane.settleChained turn' outcome).resolved ∧
      ∀ fut ∈ turn.chained, (lane.settleChained turn' outcome).Told fut outcome := by
  refine ⟨resolveAll_keeps lane _ _ _, ?_⟩
  have hnodup := h.turnFuts_nodup
  rw [turnFuts_of_turn hturn] at hnodup
  have htold := told_resolveAll h (List.nodup_cons.mp hnodup).2 (by
    intro fut hfut
    apply mem_waiting_of_turnFuts
    rw [turnFuts_of_turn hturn]
    exact List.mem_cons_of_mem _ hfut) outcome .merged
  rw [← hchained] at htold ⊢
  exact htold

theorem settleChained_finished (lane : Lane O T) (turn : Turn O) (outcome : Option O) :
    (lane.settleChained turn outcome).finished = lane.finished := by
  obtain ⟨resolved, hshape⟩ := lane.resolveAll_shape turn.chained outcome .merged
  rw [settleChained, hshape]
  rfl

theorem Lived.endRunner (h : lane.Lived) (hturn : lane.turn = some turn)
    (hphase : turn.phase = .running) (runnerEnd : RunnerEnd O) :
    (lane.endRunner turn runnerEnd).Lived := by
  have hinv := h.inv.endRunner hturn runnerEnd
  have hlive := isDone_of_phase hphase rfl
  have hrunning := h.phase turn hturn
  unfold PhaseOk at hrunning
  rw [hphase] at hrunning
  cases runnerEnd with
  | returned outcome =>
      obtain ⟨hkept, htold⟩ := told_settled h.inv hturn { turn with phase := .ending outcome } rfl
        (some outcome)
      apply h.keep hinv (Keeps.of_live hturn hlive hkept (settleChained_finished _ _ _))
      intro other hother
      cases hother
      refine ⟨hrunning.1, ?_, hrunning.2.2⟩
      intro fut hfut
      have hchained : fut ∈ turn.merged := hfut
      rw [hrunning.2.1] at hchained
      exact htold fut hchained
  | raised => exact h.retouch hturn hlive hinv hrunning
  | cancelled => exact h.retouch hturn hlive hinv hrunning

/-- The call of the sink for the terminal event lets no cancellation out, and when the turn
has an outcome no request is left behind. -/
def EndsUncancelled (lane : Lane O T) : LaneStep O T → Prop
  | .endTurn sinkEnd => ∀ turn, lane.turn = some turn →
      match turn.phase with
      | .ending _ => sinkEnd ≠ .cancelled ∧ turn.mustCancel = false
      | .failing _ => sinkEnd ≠ .cancelled
      | _ => True
  | _ => True
theorem Lived.endTurn (h : lane.Lived) (hturn : lane.turn = some turn) {sinkEnd : SinkEnd}
    (hends : lane.EndsUncancelled (.endTurn sinkEnd)) : (lane.endTurn turn sinkEnd).Lived := by
  have hinv := h.inv.endTurn hturn sinkEnd
  have hends := hends turn hturn
  have hok := h.phase turn hturn
  unfold PhaseOk at hok
  rw [Lane.endTurn] at hinv ⊢
  cases hphase : turn.phase with
  | ending outcome =>
      have hlive := isDone_of_phase hphase rfl
      rw [hphase] at hok hinv hends
      obtain ⟨hsink, hcancel⟩ := hends
      simp only [hsink, if_false] at hinv ⊢
      refine h.finish hturn hlive rfl (List.Subset.refl _) hinv ?_ ?_
      · intro _
        refine ⟨.turnEnded, sinkEnd, ?_, hsink, ?_⟩
        · show turn.terminals ++ _ = _
          rw [hok.2.2]
          rfl
        · rw [hcancel]
          exact ⟨fun _ => rfl, fun _ => rfl⟩
      · intro _
        rw [hcancel]
        exact hok.2.1
  | failing cancelled =>
      have hlive := isDone_of_phase hphase rfl
      rw [hphase] at hok hinv hends
      obtain ⟨hkept, htold⟩ := told_settled h.inv hturn
        { turn with
          phase := .failing cancelled
          terminals := turn.terminals ++ [(.turnFailed, sinkEnd)] } rfl none
      have hnone : ∀ (mustCancel : Bool), (if mustCancel = true then TaskResult.cancelled
          else if cancelled = true ∨ sinkEnd = .cancelled then .cancelled
            else .returned none : TaskResult O).outcome = none := by
        intro mustCancel
        split
        · rfl
        · split <;> rfl
      refine h.finish hturn hlive (settleChained_finished _ _ _) hkept hinv ?_ ?_
      · intro _
        refine ⟨.turnFailed, sinkEnd, ?_, hends, ?_⟩
        · show turn.terminals ++ _ = _
          rw [hok.2.2]
          rfl
        · rw [hnone]
          exact ⟨fun hsome => (by cases hsome), fun hsame => by cases hsame⟩
      · intro _ fut hfut
        have hchained : fut ∈ turn.merged := hfut
        rw [hok.2.1] at hchained
        rw [hnone]
        exact htold fut hchained
  | created => exact h
  | acquiring => exact h
  | starting => exact h
  | running => exact h
  | done result => exact h

/-- A cancelled terminal event does not count, and a request that is left behind takes the
outcome away from the host. -/
theorem endsUncancelled_of_agree (h : lane.Lived) (hturn : lane.turn = some turn)
    {sinkEnd : SinkEnd} (hagree : (lane.endTurn turn sinkEnd).LifecyclesAgree) :
    lane.EndsUncancelled (.endTurn sinkEnd) := by
  intro other hother
  rw [hturn] at hother
  cases hother
  have hok := h.phase turn hturn
  unfold PhaseOk at hok
  rw [Lane.endTurn] at hagree
  cases hphase : turn.phase with
  | ending outcome =>
      rw [hphase] at hok hagree
      obtain ⟨kind, how, hterminals, hhow, hkind⟩ :=
        (hagree _ (List.mem_append_right _ (List.mem_singleton_self _)) hok.1).announced
      have hlast : turn.terminals ++ [(Terminal.turnEnded, sinkEnd)] = [(kind, how)] := hterminals
      rw [hok.2.2] at hlast
      cases hlast
      refine ⟨hhow, ?_⟩
      cases hcancel : turn.mustCancel with
      | false => rfl
      | true =>
          have hsome := hkind.mpr rfl
          simp [Turn.outcome, TaskResult.outcome, hcancel] at hsome
  | failing cancelled =>
      rw [hphase] at hok hagree
      obtain ⟨kind, how, hterminals, hhow, -⟩ :=
        (hagree _ (List.mem_append_right _ (List.mem_singleton_self _)) hok.1).announced
      have hlast : turn.terminals ++ [(Terminal.turnFailed, sinkEnd)] = [(kind, how)] := hterminals
      rw [hok.2.2] at hlast
      cases hlast
      exact hhow
  | _ => trivial

theorem Lived.taskStep (h : lane.Lived) (hturn : lane.turn = some turn) {i : LaneStep O T}
    (hends : lane.EndsUncancelled i) : (lane.taskStep turn i).Lived := by
  have hinv := h.inv.taskStep hturn i
  have hok := h.phase turn hturn
  cases i with
  | beginTurn =>
      simp only [Lane.taskStep, Lane.beginTurn] at hinv ⊢
      cases hphase : turn.phase with
      | created =>
          have hlive := isDone_of_phase hphase rfl
          have hunstarted := hok.unstarted (Or.inl hphase)
          rw [hphase] at hinv
          simp only [if_true] at hinv ⊢
          exact h.advance hturn hlive hunstarted.1 hunstarted hinv
      | _ => exact h
  | acquired =>
      simp only [Lane.taskStep, Lane.acquired] at hinv ⊢
      cases hphase : turn.phase with
      | acquiring =>
          have hlive := isDone_of_phase hphase rfl
          have hunstarted := hok.unstarted (Or.inr (Or.inl hphase))
          rw [hphase] at hinv
          simp only [if_true] at hinv ⊢
          exact h.advance hturn hlive hunstarted.1 hunstarted hinv
      | _ => exact h
  | startTurn sinkEnd =>
      simp only [Lane.taskStep] at hinv ⊢
      cases hphase : turn.phase with
      | starting =>
          rw [hphase] at hinv
          exact h.startTurn hturn hphase sinkEnd hinv
      | _ => exact h
  | drain =>
      simp only [Lane.taskStep]
      cases hphase : turn.phase with
      | running => exact h.drain hturn hphase
      | _ => exact h
  | deliver =>
      simp only [Lane.taskStep] at hinv ⊢
      split
      · next hawaits =>
          rw [if_pos hawaits] at hinv
          have hlive : turn.isDone = false := by
            unfold Turn.isDone
            unfold Phase.awaitsCode at hawaits
            cases hphase : turn.phase with
            | done result =>
                rw [hphase] at hawaits
                cases hawaits
            | _ => rfl
          refine h.retouch hturn hlive hinv ?_
          unfold PhaseOk at hok ⊢
          cases hphase : turn.phase with
          | done result =>
              rw [hphase] at hawaits
              cases hawaits
          | _ =>
              rw [hphase] at hok
              exact hok
      · exact h
  | endRunner runnerEnd =>
      simp only [Lane.taskStep]
      cases hphase : turn.phase with
      | running => exact h.endRunner hturn hphase runnerEnd
      | _ => exact h
  | endTurn sinkEnd => exact h.endTurn hturn hends
  | _ => exact h

theorem Lived.step (h : lane.Lived) (i : LaneStep O T) (hends : lane.EndsUncancelled i) :
    (lane.step i).Lived := by
  have htask := afterTask (P := Lived) (fun _ hturn => h.taskStep hturn hends) h
  cases i with
  | submit req policy => exact h.submit req policy
  | cancelTurn fut => exact h.cancelTurn fut
  | cancelRunning => exact h.cancelTask
  | drainPending => exact h.drainPending
  | worker now => exact h.runWorker now
  | _ => exact htask

theorem lived_init : Lived ({} : Lane O T) where
  inv := inv_init
  phase _ h := by cases h
  past _ h := by cases h
  agree _ h := by cases h

/-- A turn that drained a request returns, and is cancelled while the sink has its
`TurnEnded`. -/
def cancelledAnnouncement : List (LaneStep Nat Nat) :=
  [.submit {} .append, .worker 0, .beginTurn, .acquired, .startTurn .completed,
    .submit {} .inject, .drain, .endRunner (.returned 7), .cancelTurn 0, .deliver,
    .endTurn .cancelled, .worker 0]

end Lane
end Pico
end CodeCub

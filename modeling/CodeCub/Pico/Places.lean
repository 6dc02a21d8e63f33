import CodeCub.Pico.Lane
import Mathlib.Data.List.Perm.Basic
import Mathlib.Data.List.Nodup

/-!
# Where a future is

Every future that a lane has handed out is in exactly one place: the queue, the mailbox,
the current turn, or the record of the resolved ones.  A lane with queued work has a
worker, and nothing is in the mailbox of a lane without a turn.
-/

namespace CodeCub
namespace Pico
namespace Lane

variable {O T : Type}

/-- The future of the current turn, and those that are chained to it. -/
def turnFuts (lane : Lane O T) : List Nat :=
  match lane.turn with
  | none => []
  | some turn => turn.fut :: turn.chained

/-- The futures that are not resolved. -/
def waiting (lane : Lane O T) : List Nat :=
  lane.pending.map Prod.snd ++ (lane.mailbox.map Prod.snd ++ lane.turnFuts)

/-- All futures, place by place. -/
def places (lane : Lane O T) : List Nat := lane.waiting ++ lane.resolved.map Resolution.fut

/-- Only a turn that runs, or that announces its failure, has futures to resolve. -/
def ChainOk (turn : Turn O) : Prop :=
  turn.chained = [] ∨ turn.phase = .running ∨ ∃ cancelled, turn.phase = .failing cancelled

structure Inv (lane : Lane O T) : Prop where
  placed : lane.places.Perm (List.range lane.issued)
  awake : lane.pending ≠ [] → lane.worker ≠ .idle
  awaited : lane.turn.isSome = true ↔ lane.worker = .awaiting
  aimed : lane.mailbox ≠ [] → lane.turn.isSome = true
  quiet : lane.idleSince.isSome = true → lane.worker = .idle
  chained : ∀ turn, lane.turn = some turn → ChainOk turn
  handed : ∀ fut ∈ lane.handed.flatten, fut ∈ lane.turnFuts ∨
    ∃ r ∈ lane.resolved, r.fut = fut ∧ r.resolver ≠ .dropped

/-! ## Resolving -/

theorem resolve_eq {lane : Lane O T} {fut : Nat} (h : fut ∉ lane.resolved.map Resolution.fut)
    (outcome : Option O) (resolver : Resolver) :
    lane.resolve fut outcome resolver =
      { lane with resolved := lane.resolved ++ [{ fut, outcome, resolver }] } := by
  rw [resolve, if_neg]
  rw [isResolved, decide_eq_true_eq]
  exact h

theorem resolveAll_eq {lane : Lane O T} {futs : List Nat} (hnodup : futs.Nodup)
    (hnew : ∀ fut ∈ futs, fut ∉ lane.resolved.map Resolution.fut) (outcome : Option O)
    (resolver : Resolver) :
    lane.resolveAll futs outcome resolver =
      { lane with
        resolved := lane.resolved ++ futs.map fun fut => { fut, outcome, resolver } } := by
  induction futs generalizing lane with
  | nil =>
      show lane = { lane with resolved := lane.resolved ++ [] }
      rw [List.append_nil]
  | cons fut rest ih =>
      obtain ⟨hfut, hrest⟩ := List.nodup_cons.mp hnodup
      have hfirst := resolve_eq (hnew fut List.mem_cons_self) outcome resolver
      have hnext : ∀ other ∈ rest,
          other ∉ (lane.resolve fut outcome resolver).resolved.map Resolution.fut := by
        intro other hother
        rw [hfirst]
        simp only [List.map_append, List.map_singleton, List.mem_append, List.mem_singleton, not_or]
        exact ⟨hnew other (List.mem_cons_of_mem _ hother), fun hsame => hfut (hsame ▸ hother)⟩
      have hlater := ih hrest hnext
      show (lane.resolve fut outcome resolver).resolveAll rest outcome resolver = _
      rw [hlater, hfirst]
      simp

theorem map_resolution (futs : List Nat) (outcome : Option O) (resolver : Resolver) :
    (futs.map fun fut => Resolution.mk fut outcome resolver).map Resolution.fut = futs := by
  rw [List.map_map]
  exact List.map_id futs

section Placed

variable {lane : Lane O T}

theorem Inv.nodup (h : lane.Inv) : lane.places.Nodup :=
  h.placed.nodup_iff.mpr List.nodup_range

theorem Inv.waiting_nodup (h : lane.Inv) : lane.waiting.Nodup :=
  (List.nodup_append.mp h.nodup).1

theorem Inv.resolved_nodup (h : lane.Inv) : (lane.resolved.map Resolution.fut).Nodup :=
  (List.nodup_append.mp h.nodup).2.1

theorem Inv.unresolved (h : lane.Inv) {fut : Nat} (hfut : fut ∈ lane.waiting) :
    fut ∉ lane.resolved.map Resolution.fut := fun hmem =>
  (List.nodup_append.mp h.nodup).2.2 fut hfut fut hmem rfl

theorem mem_waiting_of_turnFuts {fut : Nat} (h : fut ∈ lane.turnFuts) : fut ∈ lane.waiting := by
  rw [waiting, List.mem_append, List.mem_append]
  exact Or.inr (Or.inr h)

theorem turnFuts_of_turn {turn : Turn O} (h : lane.turn = some turn) :
    lane.turnFuts = turn.fut :: turn.chained := by
  rw [turnFuts, h]

theorem Inv.turnFuts_nodup (h : lane.Inv) : lane.turnFuts.Nodup :=
  (List.nodup_append.mp (List.nodup_append.mp h.waiting_nodup).2.1).2.1

/-- A turn whose task moves on, with the same futures. -/
theorem Inv.retouch (h : lane.Inv) {turn : Turn O} (hturn : lane.turn = some turn)
    (turn' : Turn O) (hfut : turn'.fut = turn.fut) (hchained : turn'.chained = turn.chained) (hok : ChainOk turn')
    (finished : List (Turn O)) :
    Inv { lane.setTurn turn' with finished } := by
  have hfuts : turnFuts { lane.setTurn turn' with finished } = lane.turnFuts := by
    rw [turnFuts_of_turn hturn]
    show turn'.fut :: turn'.chained = _
    rw [hfut, hchained]
  have hwaiting : waiting { lane.setTurn turn' with finished } = lane.waiting := by
    rw [waiting, hfuts]
    rfl
  have hawaited := h.awaited
  rw [hturn] at hawaited
  refine
    { placed := ?_, awake := h.awake, awaited := hawaited, aimed := fun _ => rfl
      quiet := h.quiet, chained := ?_, handed := ?_ }
  · rw [places, hwaiting]
    exact h.placed
  · rintro other hother
    cases hother
    exact hok
  · rw [hfuts]
    exact h.handed

theorem Inv.finish (h : lane.Inv) {turn : Turn O} (hturn : lane.turn = some turn)
    (turn' : Turn O) (hfut : turn'.fut = turn.fut) (hchained : turn'.chained = turn.chained)
    (hnone : turn'.chained = []) (result : TaskResult O) : (lane.finish turn' result).Inv :=
  h.retouch hturn
    { turn' with phase := .done (if turn'.mustCancel then .cancelled else result) } hfut hchained
    (Or.inl hnone) _

theorem Inv.cancelTask (h : lane.Inv) : lane.cancelTask.Inv := by
  cases hturn : lane.turn with
  | none =>
      have hsame : lane.cancelTask = lane := by
        rw [Lane.cancelTask, hturn]
        cases lane
        simp_all
      rw [hsame]
      exact h
  | some turn =>
      by_cases hdone : turn.isDone = true
      · have hsame : lane.cancelTask = lane := by
          rw [Lane.cancelTask, hturn]
          cases lane
          simp_all
        rw [hsame]
        exact h
      · have hsame : lane.cancelTask = lane.setTurn { turn with mustCancel := true } := by
          rw [Lane.cancelTask, hturn, Option.map_some, if_neg hdone]
          rfl
        rw [hsame]
        exact h.retouch hturn { turn with mustCancel := true } rfl rfl (h.chained turn hturn)
          lane.finished

/-- The chained futures are resolved with the outcome of the turn. -/
theorem Inv.settleChained (h : lane.Inv) {turn : Turn O} (hturn : lane.turn = some turn)
    (turn' : Turn O) (hfut : turn'.fut = turn.fut) (hchained : turn'.chained = turn.chained)
    (outcome : Option O) : (lane.settleChained turn' outcome).Inv := by
  have hfuts := turnFuts_of_turn hturn
  have hnodup := h.turnFuts_nodup
  rw [hfuts] at hnodup
  have hsettled : lane.resolveAll turn'.chained outcome .merged =
      { lane with resolved := lane.resolved ++
          turn.chained.map fun fut => { fut, outcome, resolver := .merged } } := by
    rw [hchained]
    apply resolveAll_eq (List.nodup_cons.mp hnodup).2
    intro fut hmem
    apply h.unresolved (mem_waiting_of_turnFuts _)
    rw [hfuts]
    exact List.mem_cons_of_mem _ hmem
  have hawaited := h.awaited
  rw [hturn] at hawaited
  rw [Lane.settleChained, hsettled]
  refine
    { placed := ?_, awake := h.awake, awaited := hawaited, aimed := fun _ => rfl
      quiet := h.quiet, chained := ?_, handed := ?_ }
  · refine List.Perm.trans ?_ h.placed
    rw [List.perm_iff_count]
    intro fut
    simp only [places, waiting, setTurn, turnFuts, hturn, hfut, List.map_append, map_resolution,
      List.count_append, List.count_cons, List.count_nil]
    omega
  · rintro other hother
    cases hother
    exact Or.inl rfl
  · intro fut hmem
    rcases h.handed fut hmem with hlive | ⟨r, hr, hrfut⟩
    · rw [hfuts, List.mem_cons] at hlive
      rcases hlive with rfl | hlive
      · left
        show turn.fut ∈ [turn'.fut]
        rw [hfut]
        exact List.mem_singleton_self _
      · right
        refine ⟨{ fut, outcome, resolver := .merged }, ?_, rfl, fun hsame => by cases hsame⟩
        exact List.mem_append_right _ (List.mem_map_of_mem hlive)
    · exact Or.inr ⟨r, List.mem_append_left _ hr, hrfut⟩

theorem Inv.startTurn (h : lane.Inv) {turn : Turn O} (hturn : lane.turn = some turn)
    (hnone : turn.chained = []) (sinkEnd : SinkEnd) : (lane.startTurn turn sinkEnd).Inv := by
  cases sinkEnd with
  | completed =>
      have hrunning := h.retouch hturn { turn with phase := .running, started := true } rfl rfl
        (Or.inl hnone) lane.finished
      refine { hrunning with handed := ?_ }
      intro fut hmem
      have hmem : fut ∈ (lane.handed ++ [[turn.fut]]).flatten := hmem
      simp only [List.flatten_append, List.flatten_cons, List.flatten_nil, List.append_nil,
        List.mem_append, List.mem_singleton] at hmem
      rcases hmem with hmem | rfl
      · exact hrunning.handed fut hmem
      · left
        exact List.mem_cons_self
  | failed => exact h.finish hturn _ rfl rfl hnone _
  | cancelled => exact h.finish hturn _ rfl rfl hnone _

/-- What is in the mailbox is chained to the running turn. -/
theorem Inv.drain (h : lane.Inv) {turn : Turn O} (hturn : lane.turn = some turn)
    (hrunning : turn.phase = .running) : (lane.drain turn).Inv := by
  have hawaited := h.awaited
  rw [hturn] at hawaited
  refine
    { placed := ?_, awake := h.awake, awaited := hawaited, aimed := fun _ => rfl
      quiet := h.quiet, chained := ?_, handed := ?_ }
  · refine List.Perm.trans ?_ h.placed
    rw [List.perm_iff_count]
    intro fut
    simp only [Lane.drain, places, waiting, setTurn, turnFuts, hturn, List.count_append,
      List.count_cons, List.map_nil, List.count_nil]
    omega
  · rintro other hother
    cases hother
    exact Or.inr (Or.inl hrunning)
  · intro fut hmem
    simp only [Lane.drain, List.flatten_append, List.flatten_cons, List.flatten_nil,
      List.append_nil, List.mem_append] at hmem
    rcases hmem with hmem | hmem
    · rcases h.handed fut hmem with hlive | hresolved
      · left
        rw [turnFuts_of_turn hturn] at hlive
        show fut ∈ turn.fut :: (turn.chained ++ lane.mailbox.map Prod.snd)
        rw [← List.cons_append]
        exact List.mem_append_left _ hlive
      · exact Or.inr hresolved
    · left
      show fut ∈ turn.fut :: (turn.chained ++ lane.mailbox.map Prod.snd)
      exact List.mem_cons_of_mem _ (List.mem_append_right _ hmem)

theorem Inv.endRunner (h : lane.Inv) {turn : Turn O} (hturn : lane.turn = some turn)
    (runnerEnd : RunnerEnd O) : (lane.endRunner turn runnerEnd).Inv := by
  cases runnerEnd with
  | returned outcome => exact h.settleChained hturn { turn with phase := .ending outcome } rfl rfl _
  | raised =>
      exact h.retouch hturn { turn with phase := .failing false } rfl rfl
        (Or.inr (Or.inr ⟨_, rfl⟩)) lane.finished
  | cancelled =>
      exact h.retouch hturn { turn with phase := .failing true } rfl rfl
        (Or.inr (Or.inr ⟨_, rfl⟩)) lane.finished

theorem Inv.endTurn (h : lane.Inv) {turn : Turn O} (hturn : lane.turn = some turn)
    (sinkEnd : SinkEnd) : (lane.endTurn turn sinkEnd).Inv := by
  rw [Lane.endTurn]
  cases hphase : turn.phase with
  | ending outcome =>
      have hnone : turn.chained = [] := by
        rcases h.chained turn hturn with hnone | hrunning | ⟨cancelled, hfailing⟩
        · exact hnone
        · rw [hphase] at hrunning
          cases hrunning
        · rw [hphase] at hfailing
          cases hfailing
      exact h.finish hturn
        { turn with
          phase := .ending outcome
          terminals := turn.terminals ++ [(.turnEnded, sinkEnd)] } rfl rfl hnone _
  | failing cancelled =>
      have hsettled := h.settleChained hturn
        { turn with
          phase := .failing cancelled
          terminals := turn.terminals ++ [(.turnFailed, sinkEnd)] } rfl rfl none
      exact hsettled.finish rfl
        { turn with
          phase := .failing cancelled
          terminals := turn.terminals ++ [(.turnFailed, sinkEnd)]
          chained := [] } rfl rfl rfl _
  | created => exact h
  | acquiring => exact h
  | starting => exact h
  | running => exact h
  | done result => exact h

/-! ## The calls -/

theorem wakeWorker_worker (lane : Lane O T) : lane.wakeWorker.worker ≠ .idle := by
  rw [wakeWorker]
  split
  · intro hsame
    cases hsame
  · next hlive => exact hlive

theorem wakeWorker_awaiting (lane : Lane O T) :
    lane.wakeWorker.worker = .awaiting ↔ lane.worker = .awaiting := by
  rw [wakeWorker]
  split
  · next hidle =>
      rw [hidle]
      exact ⟨fun hsame => (by cases hsame), fun hsame => by cases hsame⟩
  · exact Iff.rfl

theorem issued_perm (h : lane.Inv) :
    (lane.places ++ [lane.issued]).Perm (List.range (lane.issued + 1)) := by
  rw [List.range_succ]
  exact h.placed.append_right _

/-- A new future joins the queue. -/
theorem Inv.enqueueNew (h : lane.Inv) (req : TurnRequest) (front : Bool) :
    (lane.issue.enqueue (req, lane.issued) front).wakeWorker.Inv := by
  refine
    { placed := ?_, awake := fun _ => wakeWorker_worker _, awaited := ?_, aimed := h.aimed
      quiet := fun hnone => (by cases hnone), chained := h.chained, handed := h.handed }
  · refine List.Perm.trans ?_ (issued_perm h)
    rw [List.perm_iff_count]
    intro fut
    cases front with
    | true =>
        simp only [places, waiting, wakeWorker, enqueue, issue, turnFuts, if_true, List.map_cons,
          List.count_append, List.count_cons, List.count_nil]
        omega
    | false =>
        simp only [places, waiting, wakeWorker, enqueue, issue, turnFuts, Bool.false_eq_true,
          if_false, List.map_append, List.map_cons, List.map_nil, List.count_append,
          List.count_cons, List.count_nil]
        omega
  · exact h.awaited.trans (wakeWorker_awaiting _).symm

theorem isRunning_isSome (h : lane.isRunning = true) : lane.turn.isSome = true := by
  cases hturn : lane.turn with
  | some turn => rfl
  | none => simp [isRunning, hturn] at h

theorem Inv.submit (h : lane.Inv) (req : TurnRequest) (policy : BusyPolicy) :
    (lane.submit req policy).Inv := by
  simp only [Lane.submit]
  split
  · exact h.cancelTask.enqueueNew req true
  · split
    · next hinject =>
        refine
          { placed := ?_, awake := h.awake, awaited := h.awaited
            aimed := fun _ => isRunning_isSome hinject.2
            quiet := fun hnone => (by cases hnone), chained := h.chained, handed := h.handed }
        refine List.Perm.trans ?_ (issued_perm h)
        rw [List.perm_iff_count]
        intro fut
        simp only [places, waiting, issue, turnFuts, List.map_append, List.map_cons, List.map_nil,
          List.count_append, List.count_cons, List.count_nil]
        omega
    · exact h.enqueueNew req false

/-- Taking an entry out of a list of entries with distinct futures. -/
theorem count_eraseP (entries : List (TurnRequest × Nat)) {fut : Nat}
    (h : fut ∈ entries.map Prod.snd) (other : Nat) :
    (entries.map Prod.snd).count other =
      ((entries.eraseP fun entry => entry.2 = fut).map Prod.snd).count other +
        if fut = other then 1 else 0 := by
  induction entries with
  | nil => cases h
  | cons entry rest ih =>
      by_cases hsame : entry.2 = fut
      · rw [List.eraseP_cons_of_pos (by simpa using hsame), List.map_cons, List.count_cons, hsame]
        simp
      · have hrest : fut ∈ rest.map Prod.snd := by
          rcases List.mem_cons.mp h with heq | hrest
          · exact absurd heq.symm hsame
          · exact hrest
        rw [List.eraseP_cons_of_neg (by simpa using hsame), List.map_cons, List.map_cons,
          List.count_cons, List.count_cons, ih hrest]
        omega

theorem mem_waiting_of_pending {fut : Nat} (h : fut ∈ lane.pending.map Prod.snd) :
    fut ∈ lane.waiting := List.mem_append_left _ h

theorem mem_waiting_of_mailbox {fut : Nat} (h : fut ∈ lane.mailbox.map Prod.snd) :
    fut ∈ lane.waiting := List.mem_append_right _ (List.mem_append_left _ h)

theorem handed_append (h : lane.Inv) (more : List (Resolution O)) :
    ∀ fut ∈ lane.handed.flatten, fut ∈ lane.turnFuts ∨
      ∃ r ∈ lane.resolved ++ more, r.fut = fut ∧ r.resolver ≠ .dropped := by
  intro fut hmem
  rcases h.handed fut hmem with hlive | ⟨r, hr, hrfut⟩
  · exact Or.inl hlive
  · exact Or.inr ⟨r, List.mem_append_left _ hr, hrfut⟩

theorem Inv.cancelTurn (h : lane.Inv) (fut : Nat) : (lane.cancelTurn fut).Inv := by
  rw [Lane.cancelTurn]
  split
  · exact h
  · next hopen =>
      have hnew : fut ∉ lane.resolved.map Resolution.fut := by
        simpa [isResolved] using hopen
      split
      · next hpending =>
          rw [resolve_eq (by exact hnew)]
          refine
            { placed := ?_, awake := ?_, awaited := h.awaited, aimed := h.aimed
              quiet := h.quiet, chained := h.chained, handed := handed_append h _ }
          · refine List.Perm.trans ?_ h.placed
            rw [List.perm_iff_count]
            intro other
            have hcount := count_eraseP lane.pending hpending other
            simp only [places, waiting, withPending, turnFuts, List.map_append, List.map_cons,
              List.map_nil, List.count_append, List.count_cons, List.count_nil, beq_iff_eq]
              at hcount ⊢
            omega
          · intro hsome
            apply h.awake
            intro hnone
            rw [hnone] at hpending
            cases hpending
      · split
        · next hmailbox =>
            rw [resolve_eq (by exact hnew)]
            refine
              { placed := ?_, awake := h.awake, awaited := h.awaited, aimed := ?_
                quiet := h.quiet, chained := h.chained, handed := handed_append h _ }
            · refine List.Perm.trans ?_ h.placed
              rw [List.perm_iff_count]
              intro other
              have hcount := count_eraseP lane.mailbox hmailbox other
              simp only [places, waiting, withMailbox, turnFuts, List.map_append, List.map_cons,
                List.map_nil, List.count_append, List.count_cons, List.count_nil, beq_iff_eq]
                at hcount ⊢
              omega
            · intro _
              apply h.aimed
              intro hnone
              rw [hnone] at hmailbox
              cases hmailbox
        · split
          · exact h.cancelTask
          · exact h

theorem Inv.drainPending (h : lane.Inv) : lane.drainPending.Inv := by
  have hnodup := h.waiting_nodup
  rw [waiting, ← List.append_assoc] at hnodup
  have hnew : ∀ fut ∈ lane.pending.map Prod.snd ++ lane.mailbox.map Prod.snd,
      fut ∉ lane.resolved.map Resolution.fut := by
    intro fut hmem
    apply h.unresolved
    rcases List.mem_append.mp hmem with hmem | hmem
    · exact mem_waiting_of_pending hmem
    · exact mem_waiting_of_mailbox hmem
  rw [Lane.drainPending, resolveAll_eq (List.nodup_append.mp hnodup).1 (by exact hnew)]
  refine
    { placed := ?_, awake := fun hsome => absurd rfl hsome, awaited := h.awaited
      aimed := fun hsome => absurd rfl hsome, quiet := h.quiet, chained := h.chained
      handed := handed_append h _ }
  refine List.Perm.trans ?_ h.placed
  rw [List.perm_iff_count]
  intro fut
  simp only [places, waiting, turnFuts, List.map_append (f := Resolution.fut), map_resolution,
    List.map_nil, List.count_append, List.count_nil]
  omega

/-! ## The worker -/

/-- Between two turns of the worker: it is neither idle nor awaiting a task. -/
theorem Inv.takeNext {lane : Lane O T} (hplaced : lane.places.Perm (List.range lane.issued))
    (hmailbox : lane.mailbox = []) (hturn : lane.turn = none) (hidle : lane.idleSince = none)
    (hhanded : ∀ fut ∈ lane.handed.flatten, fut ∈ lane.turnFuts ∨
      ∃ r ∈ lane.resolved, r.fut = fut ∧ r.resolver ≠ .dropped) (now : T) :
    (lane.takeNext now).Inv := by
  have hfuts : lane.turnFuts = [] := by rw [turnFuts, hturn]
  rw [Lane.takeNext]
  split
  · next hpending =>
      refine
        { placed := hplaced, awake := fun hsome => absurd hpending hsome, awaited := ?_
          aimed := fun hsome => absurd hmailbox hsome, quiet := fun _ => rfl, chained := ?_
          handed := hhanded }
      · rw [hturn]
        exact ⟨fun hsome => (by cases hsome), fun hsome => by cases hsome⟩
      · intro turn hsome
        rw [hturn] at hsome
        cases hsome
  · next req fut rest hpending =>
      refine
        { placed := ?_, awake := fun _ => (by intro hsame; cases hsame)
          awaited := ⟨fun _ => rfl, fun _ => rfl⟩, aimed := fun _ => rfl
          quiet := fun hsome => ?_, chained := ?_, handed := ?_ }
      · refine List.Perm.trans ?_ hplaced
        rw [List.perm_iff_count]
        intro other
        simp only [places, waiting, turnFuts, hpending, hturn, List.map_cons, List.count_append,
          List.count_cons, List.count_nil]
        omega
      · rw [hidle] at hsome
        cases hsome
      · rintro turn hturn'
        cases hturn'
        exact Or.inl rfl
      · intro other hmem
        rcases hhanded other hmem with hlive | hresolved
        · rw [hfuts] at hlive
          cases hlive
        · exact Or.inr hresolved

theorem Inv.closeTurn_takeNext (h : lane.Inv) {turn : Turn O} (hturn : lane.turn = some turn)
    {result : TaskResult O} (hdone : turn.phase = .done result) (now : T) :
    ((lane.closeTurn turn result).takeNext now).Inv := by
  have hfuts := turnFuts_of_turn hturn
  have hnone : turn.chained = [] := by
    rcases h.chained turn hturn with hnone | hrunning | ⟨cancelled, hfailing⟩
    · exact hnone
    · rw [hdone] at hrunning
      cases hrunning
    · rw [hdone] at hfailing
      cases hfailing
  have hnew : turn.fut ∉ lane.resolved.map Resolution.fut := by
    apply h.unresolved (mem_waiting_of_turnFuts _)
    rw [hfuts]
    exact List.mem_cons_self
  have hidle : lane.idleSince = none := by
    cases hsince : lane.idleSince with
    | none => rfl
    | some since =>
        have hworker := h.quiet (by rw [hsince]; rfl)
        rw [h.awaited.mp (by rw [hturn]; rfl)] at hworker
        cases hworker
  rw [closeTurn, resolve_eq hnew]
  apply Inv.takeNext
  · refine List.Perm.trans ?_ h.placed
    rw [List.perm_iff_count]
    intro fut
    simp only [places, waiting, turnFuts, hturn, hnone, List.map_append, List.map_cons,
      List.map_nil, List.count_append, List.count_cons, List.count_nil]
    omega
  · rfl
  · rfl
  · exact hidle
  · intro fut hmem
    right
    rcases h.handed fut hmem with hlive | ⟨r, hr, hrfut⟩
    · rw [hfuts, hnone, List.mem_singleton] at hlive
      exact ⟨_, List.mem_append_right _ List.mem_cons_self, hlive.symm,
        fun hsame => by cases hsame⟩
    · exact ⟨r, List.mem_append_left _ hr, hrfut⟩

theorem Inv.runWorker (h : lane.Inv) (now : T) : (lane.runWorker now).Inv := by
  rw [Lane.runWorker]
  split
  · next hready =>
      have hturn : lane.turn = none := by
        cases hturn : lane.turn with
        | none => rfl
        | some turn =>
            have hawaiting := h.awaited.mp (by rw [hturn]; rfl)
            rw [hready] at hawaiting
            cases hawaiting
      have hmailbox : lane.mailbox = [] := by
        by_contra hsome
        have hturn' := h.aimed hsome
        rw [hturn] at hturn'
        cases hturn'
      have hidle : lane.idleSince = none := by
        cases hsince : lane.idleSince with
        | none => rfl
        | some since =>
            have hworker := h.quiet (by rw [hsince]; rfl)
            rw [hready] at hworker
            cases hworker
      exact Inv.takeNext h.placed hmailbox hturn hidle h.handed now
  · next turn hawaiting hturn =>
      split
      · next result hdone => exact h.closeTurn_takeNext hturn hdone now
      · exact h
  · exact h

/-! ## Runs -/

theorem chained_of_phase (h : lane.Inv) {turn : Turn O} (hturn : lane.turn = some turn)
    (hrunning : turn.phase ≠ .running) (hfailing : ∀ cancelled, turn.phase ≠ .failing cancelled) :
    turn.chained = [] := by
  rcases h.chained turn hturn with hnone | hphase | ⟨cancelled, hphase⟩
  · exact hnone
  · exact absurd hphase hrunning
  · exact absurd hphase (hfailing cancelled)

theorem Inv.taskStep (h : lane.Inv) {turn : Turn O} (hturn : lane.turn = some turn)
    (i : LaneStep O T) : (lane.taskStep turn i).Inv := by
  cases i with
  | beginTurn =>
      simp only [Lane.taskStep, Lane.beginTurn]
      cases hphase : turn.phase with
      | created =>
          have hnone := chained_of_phase h hturn (by rw [hphase]; nofun) (by rw [hphase]; nofun)
          simp only [if_true]
          split
          · exact h.finish hturn turn rfl rfl hnone _
          · exact h.retouch hturn { turn with phase := .acquiring } rfl rfl (Or.inl hnone)
              lane.finished
      | _ => exact h
  | acquired =>
      simp only [Lane.taskStep, Lane.acquired]
      cases hphase : turn.phase with
      | acquiring =>
          have hnone := chained_of_phase h hturn (by rw [hphase]; nofun) (by rw [hphase]; nofun)
          simp only [if_true]
          split
          · exact h.finish hturn turn rfl rfl hnone _
          · exact h.retouch hturn { turn with phase := .starting } rfl rfl (Or.inl hnone)
              lane.finished
      | _ => exact h
  | startTurn sinkEnd =>
      simp only [Lane.taskStep]
      cases hphase : turn.phase with
      | starting =>
          have hnone := chained_of_phase h hturn (by rw [hphase]; nofun) (by rw [hphase]; nofun)
          exact h.startTurn hturn hnone sinkEnd
      | _ => exact h
  | drain =>
      simp only [Lane.taskStep]
      cases hphase : turn.phase with
      | running => exact h.drain hturn hphase
      | _ => exact h
  | deliver =>
      have hdelivered := h.retouch hturn { turn with mustCancel := false } rfl rfl
        (h.chained turn hturn) lane.finished
      simp only [Lane.taskStep]
      split
      · exact hdelivered
      · exact h
  | endRunner runnerEnd =>
      simp only [Lane.taskStep]
      split
      · exact h.endRunner hturn runnerEnd
      · exact h
  | endTurn sinkEnd => exact h.endTurn hturn sinkEnd
  | _ => exact h

theorem Inv.step (h : lane.Inv) (i : LaneStep O T) : (lane.step i).Inv := by
  have htask := afterTask (P := Inv) (fun _ hturn => h.taskStep hturn i) h
  cases i with
  | submit req policy => exact h.submit req policy
  | cancelTurn fut => exact h.cancelTurn fut
  | cancelRunning => exact h.cancelTask
  | drainPending => exact h.drainPending
  | worker now => exact h.runWorker now
  | _ => exact htask

end Placed

theorem inv_init : Inv ({} : Lane O T) where
  placed := List.Perm.refl _
  awake h := absurd rfl h
  awaited := ⟨fun h => (by cases h), fun h => by cases h⟩
  aimed h := absurd rfl h
  quiet h := by cases h
  chained _ h := by cases h
  handed _ h := by cases h

theorem inv_run (is : List (LaneStep O T)) : ((laneMachine O T).run {} is).Inv :=
  Machine.run_preserves (m := laneMachine O T) (P := Inv) (fun _ i h => h.step i) is inv_init

end Lane
end Pico
end CodeCub

import CodeCub.Evolver.Gates

/-!
# Promotion is fail-closed

A promoted outcome rests on valid measurements of every training task in both arms, and
an outcome that rests on anything else is neither accepted nor rejected.
-/

namespace CodeCub
namespace Evolver

open Python

variable {E : Type}

/-! ## Validity -/

theorem measurementValidity_ok {evals : Evals} {taskIds : List Str} {k : Nat}
    {validity : MeasurementValidity}
    (h : (measurementValidity evals taskIds k : Except (EvolverError E) _) = .ok validity) :
    validity.status = .measured ↔ evals.Measured taskIds k := by
  by_cases hk : 1 ≤ k
  · exact measurementValidity_valid hk h
  · rw [measurementValidity, if_pos (by omega)] at h
    cases h

theorem invalidVerdict_eq_none {candidate control : MeasurementValidity} :
    invalidVerdict candidate control = none ↔
      candidate.status = .measured ∧ control.status = .measured := by
  rw [invalidVerdict]
  cases candidate.status <;> cases control.status <;> decide

/-- A verdict on invalid evidence is neither acceptance nor rejection. -/
theorem invalidVerdict_some {candidate control : MeasurementValidity} {verdict : EvaluationVerdict}
    (h : invalidVerdict candidate control = some verdict) :
    verdict = .failed ∨ verdict = .inconclusive := by
  rw [invalidVerdict] at h
  split at h
  · exact Or.inl (Option.some.inj h).symm
  · split at h
    · exact Or.inr (Option.some.inj h).symm
    · cases h

theorem measurementVerdict_ok {candidate control : Evals} {taskIds : List Str} {k : Nat}
    {verdict : Option EvaluationVerdict}
    (h : (measurementVerdict candidate control taskIds k : Except (EvolverError E) _) =
      .ok verdict) :
    (verdict = none → candidate.Measured taskIds k ∧ control.Measured taskIds k) ∧
      ∀ v ∈ verdict, v = .failed ∨ v = .inconclusive := by
  obtain ⟨validity, hcandidate, h⟩ := bind_eq_ok h
  obtain ⟨validity', hcontrol, h⟩ := bind_eq_ok h
  cases h
  constructor
  · intro hnone
    obtain ⟨hmeasured, hmeasured'⟩ := invalidVerdict_eq_none.mp hnone
    exact ⟨(measurementValidity_ok hcandidate).mp hmeasured,
      (measurementValidity_ok hcontrol).mp hmeasured'⟩
  · exact fun v hv => invalidVerdict_some hv

/-! ## The shields -/

theorem trainMean_eq {taskIds : List Str} (hne : taskIds ≠ []) (evals : Evals) :
    (taskIds.map (rate evals)).sum / taskIds.length = trainMean evals taskIds := by
  rw [trainMean, if_neg hne]

/-- A lift that is promoted is a strictly higher mean. -/
theorem pairedLift_ok {candidateEvals controlEvals : Evals} {taskIds : List Str} {k : Nat}
    {zThreshold : ℚ} {paired : PairedResult}
    (h : (pairedLift candidateEvals controlEvals taskIds k zThreshold :
      Except (EvolverError E) _) = .ok paired) :
    (paired.promoted = true ↔ paired.verdict = .accepted) ∧
      (paired.verdict = .accepted →
        trainMean controlEvals taskIds < trainMean candidateEvals taskIds) := by
  rw [pairedLift] at h
  by_cases hne : taskIds = []
  · rw [if_pos hne] at h
    cases h
  · rw [if_neg hne] at h
    obtain ⟨validity, -, h⟩ := bind_eq_ok h
    obtain ⟨validity', -, h⟩ := bind_eq_ok h
    cases h
    refine ⟨decide_eq_true_iff, fun haccepted => ?_⟩
    simp only [trainMean_eq hne] at haccepted
    cases hinvalid : invalidVerdict validity validity' with
    | none =>
        rw [hinvalid, Option.getD_none] at haccepted
        by_contra hle
        rw [if_neg hle] at haccepted
        cases haccepted
    | some verdict =>
        rw [hinvalid, Option.getD_some] at haccepted
        rcases invalidVerdict_some hinvalid with rfl | rfl
        · cases haccepted
        · cases haccepted

/-- What `run_gates` answers. -/
structure Shielded (candidateEvals controlEvals : Evals) (taskIds : List Str) (k : Nat)
    (firedTasks : Option (List Str)) (gate : GateResult) : Prop where
  promoted : gate.promoted = true → gate.verdict = .accepted
  lift : gate.verdict = .accepted →
    trainMean controlEvals (attributed firedTasks taskIds) <
      trainMean candidateEvals (attributed firedTasks taskIds)
  measured : gate.verdict = .accepted ∨ gate.verdict = .rejected →
    candidateEvals.Measured taskIds k ∧ controlEvals.Measured taskIds k

theorem runGates_ok {candidateEvals controlEvals : Evals} {taskIds : List Str} {k : Nat}
    {zThreshold : ℚ} {firedTasks : Option (List Str)} {infraThreshold : Nat} {gate : GateResult}
    (h : (runGates candidateEvals controlEvals taskIds k zThreshold firedTasks infraThreshold :
      Except (EvolverError E) _) = .ok gate) :
    Shielded candidateEvals controlEvals taskIds k firedTasks gate := by
  obtain ⟨validity, hcandidate, h⟩ := bind_eq_ok h
  obtain ⟨validity', hcontrol, h⟩ := bind_eq_ok h
  cases hinvalid : invalidVerdict validity validity' with
  | some verdict =>
      simp only [hinvalid] at h
      cases h
      rcases invalidVerdict_some hinvalid with rfl | rfl
      · exact ⟨by simp, by simp, by simp⟩
      · exact ⟨by simp, by simp, by simp⟩
  | none =>
      simp only [hinvalid] at h
      obtain ⟨hmeasured, hmeasured'⟩ := invalidVerdict_eq_none.mp hinvalid
      have hboth : candidateEvals.Measured taskIds k ∧ controlEvals.Measured taskIds k :=
        ⟨(measurementValidity_ok hcandidate).mp hmeasured,
          (measurementValidity_ok hcontrol).mp hmeasured'⟩
      split at h
      · cases h
        exact ⟨by simp, by simp, fun _ => hboth⟩
      · obtain ⟨paired, hpaired, h⟩ := bind_eq_ok h
        cases h
        obtain ⟨hpromoted, hlift⟩ := pairedLift_ok hpaired
        exact ⟨hpromoted.mp, hlift, fun _ => hboth⟩

/-! ## Decisions -/

/-- What a promotion rests on. -/
structure Promotion (ctx : DecisionContext E) (k : Nat) (confirm : Evals)
    (fired : Option (List Str)) (outcome : CandidateOutcome) : Prop where
  scored : ctx.confirm k = .ok confirm
  attribution : ctx.fired = .ok fired
  evals : outcome.confirmEvals = confirm
  candidate : confirm.Measured ctx.trainTaskIds k
  control : ctx.baseline.evals.Measured ctx.trainTaskIds k
  fullMean : trainMean ctx.baseline.evals ctx.trainTaskIds ≤ trainMean confirm ctx.trainTaskIds
  lift : trainMean ctx.baseline.evals (attributed fired ctx.trainTaskIds) <
    trainMean confirm (attributed fired ctx.trainTaskIds)
  score : outcome.score = trainMean confirm ctx.trainTaskIds

/-- The evaluation of a job is valid evidence in both arms. -/
def ValidEvidence (ctx : DecisionContext E) (scored : Except (EvolverError E) Evals)
    (taskIds : List Str) (k : Nat) : Prop :=
  ∃ evals, scored = .ok evals ∧ evals.Measured taskIds k ∧
    ctx.baseline.evals.Measured taskIds k

/-- A promotion is sound, and a verdict for or against the candidate rests on valid
evidence from the screen, and from the confirmation where there was one. -/
structure FailClosed (ctx : DecisionContext E) (k : Nat) (screened : Prop)
    (outcome : CandidateOutcome) : Prop where
  promotion : outcome.promoted = true → ∃ confirm fired, Promotion ctx k confirm fired outcome
  evidence : outcome.verdict = .accepted ∨ outcome.verdict = .rejected →
    screened ∧ (outcome.gate.isSome = true →
      ValidEvidence ctx (ctx.confirm k) ctx.trainTaskIds k)

namespace FailClosed

variable {ctx : DecisionContext E} {k : Nat} {screened : Prop}

theorem invalid {verdict : EvaluationVerdict} (h : verdict = .failed ∨ verdict = .inconclusive) :
    FailClosed ctx k screened (invalidOutcome ctx.nodeId verdict) := by
  rcases h with rfl | rfl
  · exact ⟨by simp [invalidOutcome, CandidateOutcome.promoted], by simp [invalidOutcome]⟩
  · exact ⟨by simp [invalidOutcome, CandidateOutcome.promoted], by simp [invalidOutcome]⟩

/-- A rejection by the screen. -/
theorem pruned (hscreened : screened) (screen : Option ScreenResult) :
    FailClosed ctx k screened
      { nodeId := ctx.nodeId, status := .prunedAtScreen, screen, verdict := .rejected } :=
  ⟨by simp [CandidateOutcome.promoted], fun _ => ⟨hscreened, by simp⟩⟩

/-- A confirmation. -/
theorem confirmed (hscreened : screened) {confirm : Evals} (hconfirm : ctx.confirm k = .ok confirm)
    {fired : Option (List Str)} (hfired : ctx.fired = .ok fired) {gate : GateResult}
    (hgate : Shielded confirm ctx.baseline.evals ctx.trainTaskIds k fired gate)
    {promoted : Bool} (hpromoted : promoted = true → gate.promoted = true ∧
      trainMean ctx.baseline.evals ctx.trainTaskIds ≤ trainMean confirm ctx.trainTaskIds)
    (screen : Option ScreenResult) :
    FailClosed ctx k screened (confirmedOutcome ctx.nodeId (trainMean confirm ctx.trainTaskIds)
      confirm screen gate promoted) := by
  have haccepted : promoted = true → gate.verdict = .accepted := fun h =>
    hgate.promoted (hpromoted h).1
  constructor
  · intro hpromotion
    have htrue : promoted = true := by
      rw [CandidateOutcome.promoted, Bool.and_eq_true, decide_eq_true_iff] at hpromotion
      have hstatus := hpromotion.1
      rw [confirmedOutcome] at hstatus
      cases promoted with
      | true => rfl
      | false =>
          simp only [Bool.false_eq_true, if_false] at hstatus
          split at hstatus
          · cases hstatus
          · cases hstatus
    obtain ⟨hcandidate, hcontrol⟩ := hgate.measured (Or.inl (haccepted htrue))
    exact ⟨confirm, fired, hconfirm, hfired, rfl, hcandidate, hcontrol, (hpromoted htrue).2,
      hgate.lift (haccepted htrue), rfl⟩
  · intro hverdict
    refine ⟨hscreened, fun _ => ⟨confirm, hconfirm, hgate.measured ?_⟩⟩
    rw [confirmedOutcome] at hverdict
    cases promoted with
    | true => exact Or.inl (haccepted rfl)
    | false =>
        simp only [Bool.false_eq_true, if_false] at hverdict
        split at hverdict
        · next h => exact Or.inl h
        · exact hverdict

end FailClosed

/-- The evidence of the anchor screen. -/
def PairedTwoSigmaGate.Screened (policy : PairedTwoSigmaGate) (ctx : DecisionContext E) : Prop :=
  ∃ anchor, ctx.anchor = some anchor ∧
    ValidEvidence ctx (ctx.score anchor.taskIds policy.kScreen "_screen") anchor.taskIds
      policy.kScreen

/-- The evidence of the focused probe, which asks for nothing when it has no task. -/
def FocusedFisherGate.Screened (policy : FocusedFisherGate) (ctx : DecisionContext E) : Prop :=
  probeIds ctx = [] ∨
    ValidEvidence ctx (ctx.score (probeIds ctx) policy.k "_focused") (probeIds ctx) policy.k

theorem PairedTwoSigmaGate.failClosed (policy : PairedTwoSigmaGate) (ctx : DecisionContext E)
    {outcome : CandidateOutcome} (h : policy.decide ctx = .ok outcome) :
    FailClosed ctx policy.kConfirm (policy.Screened ctx) outcome := by
  rw [PairedTwoSigmaGate.decide] at h
  cases hanchor : ctx.anchor with
  | none =>
      rw [hanchor] at h
      cases h
  | some anchor =>
      rw [hanchor] at h
      obtain ⟨screenEvals, hscreenEvals, h⟩ := bind_eq_ok h
      obtain ⟨invalid, hinvalid, h⟩ := bind_eq_ok h
      obtain ⟨hmeasured, hverdict⟩ := measurementVerdict_ok hinvalid
      cases invalid with
      | some verdict =>
          cases h
          exact FailClosed.invalid (hverdict verdict rfl)
      | none =>
          have hscreened : policy.Screened ctx := ⟨anchor, hanchor, screenEvals, hscreenEvals,
            hmeasured rfl⟩
          obtain ⟨screen, -, h⟩ := bind_eq_ok h
          split at h
          · cases h
            exact FailClosed.pruned hscreened _
          · obtain ⟨confirm, hconfirm, h⟩ := bind_eq_ok h
            obtain ⟨fired, hfired, h⟩ := bind_eq_ok h
            obtain ⟨gate, hgate, h⟩ := bind_eq_ok h
            cases h
            refine FailClosed.confirmed hscreened hconfirm hfired (runGates_ok hgate) ?_ _
            intro hpromoted
            rw [Bool.and_eq_true, decide_eq_true_iff] at hpromoted
            exact hpromoted

theorem FocusedFisherGate.failClosed (policy : FocusedFisherGate) (ctx : DecisionContext E)
    (hlift : 0 ≤ policy.minConfirmLift)
    (hmean : ctx.baseline.mean = trainMean ctx.baseline.evals ctx.trainTaskIds)
    {outcome : CandidateOutcome} (h : policy.decide ctx = .ok outcome) :
    FailClosed ctx policy.k (policy.Screened ctx) outcome := by
  rw [FocusedFisherGate.decide] at h
  obtain ⟨probe, hprobe, h⟩ := bind_eq_ok h
  obtain ⟨invalid, hinvalid, h⟩ := bind_eq_ok h
  obtain ⟨hmeasured, hverdict⟩ := measurementVerdict_ok hinvalid
  cases invalid with
  | some verdict =>
      cases h
      exact FailClosed.invalid (hverdict verdict rfl)
  | none =>
      have hscreened : policy.Screened ctx := by
        by_cases hnil : probeIds ctx = []
        · exact Or.inl hnil
        · rw [FocusedFisherGate.probe, if_neg hnil] at hprobe
          exact Or.inr ⟨probe, hprobe, hmeasured rfl⟩
      dsimp only at h
      split at h
      · cases h
        exact FailClosed.pruned hscreened _
      · split at h
        · cases h
          exact FailClosed.pruned hscreened _
        · obtain ⟨confirm, hconfirm, h⟩ := bind_eq_ok h
          obtain ⟨fired, hfired, h⟩ := bind_eq_ok h
          obtain ⟨gate, hgate, h⟩ := bind_eq_ok h
          cases h
          refine FailClosed.confirmed hscreened hconfirm hfired (runGates_ok hgate) ?_ _
          intro hpromoted
          rw [Bool.and_eq_true, decide_eq_true_iff] at hpromoted
          refine ⟨hpromoted.1, ?_⟩
          rw [← hmean]
          exact sub_nonneg.mp (hlift.trans hpromoted.2)

/-- Both gates promote only on valid evidence and a lift, and judge only on valid
evidence. -/
theorem promotion_is_fail_closed (ctx : DecisionContext E)
    (hmean : ctx.baseline.mean = trainMean ctx.baseline.evals ctx.trainTaskIds) :
    (∀ (policy : PairedTwoSigmaGate) outcome, policy.decide ctx = .ok outcome →
      FailClosed ctx policy.kConfirm (policy.Screened ctx) outcome) ∧
    ∀ (policy : FocusedFisherGate) outcome, 0 ≤ policy.minConfirmLift →
      policy.decide ctx = .ok outcome → FailClosed ctx policy.k (policy.Screened ctx) outcome :=
  ⟨fun policy _ h => policy.failClosed ctx h,
    fun policy _ hlift h => policy.failClosed ctx hlift hmean h⟩

/-- One measurement of the task `t`. -/
def oneTask (passes : Fin 4) : Evals :=
  (∅ : Evals).set "t".toList
    { taskId := "t".toList, passes := passes, attempts := 3
      passes_le := by omega, infraAttempts_le := by decide }

/-- The candidate passes every trial and the control one of three. -/
def liftContext : DecisionContext Empty where
  nodeId := "v1".toList
  eval _ := .ok (oneTask 3)
  baseline := { evals := oneTask 1, mean := 1 / 3, label := "vanilla".toList }
  trainTaskIds := ["t".toList]
  anchor := some { taskIds := ["t".toList], sigmaScreen := 0, cullThreshold := 0 }
  focusedTaskIds := ["t".toList]

theorem lift_is_promoted :
    (∃ outcome, ({} : PairedTwoSigmaGate).decide liftContext = .ok outcome ∧
      outcome.promoted = true ∧
      FailClosed liftContext 3 (({} : PairedTwoSigmaGate).Screened liftContext) outcome) ∧
    ∃ outcome, ({} : FocusedFisherGate).decide liftContext = .ok outcome ∧
      outcome.promoted = true ∧
      FailClosed liftContext 3 (({} : FocusedFisherGate).Screened liftContext) outcome := by
  obtain ⟨hpaired, hfisher⟩ := promotion_is_fail_closed liftContext (by decide +kernel)
  have hdecide : ∀ decided : Except (EvolverError Empty) CandidateOutcome,
      decided.toOption.any CandidateOutcome.promoted = true →
      ∃ outcome, decided = .ok outcome ∧ outcome.promoted = true := by
    rintro (error | outcome) h
    · cases h
    · exact ⟨outcome, rfl, h⟩
  constructor
  · obtain ⟨outcome, heq, hpromoted⟩ := hdecide (({} : PairedTwoSigmaGate).decide liftContext)
      (by decide +kernel)
    exact ⟨outcome, heq, hpromoted, hpaired {} outcome heq⟩
  · obtain ⟨outcome, heq, hpromoted⟩ := hdecide (({} : FocusedFisherGate).decide liftContext)
      (by decide +kernel)
    exact ⟨outcome, heq, hpromoted, hfisher {} outcome le_rfl heq⟩

end Evolver
end CodeCub

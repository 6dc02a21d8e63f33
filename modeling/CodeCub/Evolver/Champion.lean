import CodeCub.Evolver.Loop
import Mathlib.Data.List.ReduceOption
import Mathlib.Order.Basic

/-!
# The chain of champions

The incumbent changes only to a better one, over all rounds and resumptions of an
evolution, and the rounds are bounded.
-/

namespace CodeCub
namespace Evolver

open Python

variable {S A F : Type}

/-! ## The best candidate of a round -/

theorem promoted_ofStatus [Zero S] {status : NodeStatus} (h : status ≠ .promotedToBaseline) :
    (Outcome.ofStatus status : Outcome S).promoted = false := by
  simp [Outcome.promoted, Outcome.ofStatus, h]

theorem noteFlips_outcomes (t : Tally S A) (ids : List Str) (ctx : Decision) (o : Outcome S) :
    (t.noteFlips ids ctx o).outcomes = t.outcomes ∧ (t.noteFlips ids ctx o).decided = t.decided ∧
      (t.noteFlips ids ctx o).bestNodeId = t.bestNodeId ∧
      (t.noteFlips ids ctx o).bestScore = t.bestScore := by
  rw [Tally.noteFlips]
  split <;> exact ⟨rfl, rfl, rfl, rfl⟩

theorem errored_iff (outcomes : List (Outcome S)) :
    (!outcomes.isEmpty && outcomes.all Outcome.undecided) = false ↔
      outcomes = [] ∨ ∃ o ∈ outcomes, o.undecided = false := by
  cases outcomes with
  | nil => simp
  | cons o rest => cases hundecided : o.undecided <;> simp [hundecided]

section Round

variable [Zero S] {config : RoundConfig S A F} {inj : Injected S} {round : Nat} {parentId : Str}
  {e : Entrance} {baseline : Baseline}

/-! ### The outcomes of the loop itself -/

theorem preflightAll_unpromoted (inj : Injected S) (parent : NodeRef) (i : Nat) (cands : List Candidate) :
    ∀ o ∈ (preflightAll inj parent i cands).2.1, o.promoted = false := by
  induction cands generalizing i with
  | nil => simp [preflightAll]
  | cons cand rest ih =>
      rw [preflightAll]
      split
      · simp
      · next keep _ =>
          cases keep with
          | true => exact ih (i + 1)
          | false =>
              intro o ho
              rcases List.mem_cons.mp ho with rfl | hrest
              · exact promoted_ofStatus (by decide)
              · exact ih (i + 1) o hrest

theorem designAll_unpromoted (w : Work A) : ∀ o ∈ (designAll inj round w e).2, o.promoted = false := by
  have herrored : ∀ o ∈ [(Outcome.ofStatus .errored : Outcome S)], o.promoted = false := by
    intro o ho
    rw [List.mem_singleton.mp ho]
    exact promoted_ofStatus (by decide)
  rw [designAll]
  split
  · exact herrored
  · split
    · exact herrored
    · next designed _ =>
        have hall := preflightAll_unpromoted inj e.parent 0 designed
        generalize preflightAll inj e.parent 0 designed = screened at hall ⊢
        obtain ⟨kept, pruned, returned⟩ := screened
        cases returned with
        | true => exact hall
        | false =>
            intro o ho
            rcases List.mem_append.mp ho with hpruned | hlast
            · exact hall o hpruned
            · exact herrored o hlast

theorem recombineAll_unpromoted (parent : NodeRef) (archive : A) :
    ∀ o ∈ (recombineAll config inj parentId parent archive).2.1, o.promoted = false := by
  have herrored : ∀ o ∈ [(Outcome.ofStatus .errored : Outcome S)], o.promoted = false := by
    intro o ho
    rw [List.mem_singleton.mp ho]
    exact promoted_ofStatus (by decide)
  rw [recombineAll]
  split
  · exact herrored
  · next elites _ =>
      generalize recombineElites config inj parentId parent 0 elites archive = recombined
      obtain ⟨cands, rest, returned⟩ := recombined
      cases returned with
      | true => simp
      | false => exact herrored

/-! ### The argmax -/

variable [Preorder S]

/-- The best promoted node so far. -/
structure Tally.Best (parentId : Str) (t : Tally S A) : Prop where
  bound : ∀ o ∈ t.outcomes, o.promoted = true → ¬ t.bestScore < o.score
  crowned : ∀ nodeId, t.bestNodeId = some nodeId → nodeId ≠ parentId ∧
    ∃ node o, (node, o) ∈ t.decided ∧ node.nodeId = nodeId ∧ o ∈ t.outcomes ∧
      o.promoted = true ∧ o.score = t.bestScore

theorem Tally.Best.fail {t : Tally S A} (h : t.Best parentId) (cand : Candidate)
    {status : NodeStatus} (hstatus : status ≠ .promotedToBaseline) :
    (t.fail config parentId cand status).Best parentId where
  bound o ho hpromoted := by
    rcases List.mem_append.mp ho with hold | hnew
    · exact h.bound o hold hpromoted
    · rw [List.mem_singleton.mp hnew, promoted_ofStatus hstatus] at hpromoted
      cases hpromoted
  crowned nodeId hbest := by
    obtain ⟨hne, node, o, hdecided, hid, ho, hrest⟩ := h.crowned nodeId hbest
    exact ⟨hne, node, o, hdecided, hid, List.mem_append_left _ ho, hrest⟩

variable [DecidableLT S]

theorem decideNode_best {t t' : Tally S A} {idx : Nat} {cand : Candidate} {ctx : Decision}
    (h : t.Best ctx.parentId) (hfresh : ctx.node.nodeId ≠ ctx.parentId)
    (hrun : decideNode config inj idx cand ctx t = .ok t') : t'.Best ctx.parentId := by
  rw [decideNode] at hrun
  split at hrun
  · obtain rfl := Except.ok.inj hrun
    exact h.fail cand (by decide)
  · next decided _ =>
      generalize withEvidence inj idx ctx decided = o at hrun
      obtain ⟨houtcomes, hdecided, hid, hscore⟩ := noteFlips_outcomes t config.trainTaskIds ctx decided
      generalize t.noteFlips config.trainTaskIds ctx decided = u at hrun houtcomes hdecided hid hscore
      have hold : ∀ nodeId, u.bestNodeId = some nodeId → nodeId ≠ ctx.parentId ∧
          ∃ node q, (node, q) ∈ u.decided ++ [(ctx.node, o)] ∧ node.nodeId = nodeId ∧
            q ∈ u.outcomes ++ [o] ∧ q.promoted = true ∧ q.score = u.bestScore := by
        intro nodeId hbest
        rw [hid] at hbest
        obtain ⟨hne, node, q, hq, hnode, hqo, hqp, hqs⟩ := h.crowned nodeId hbest
        rw [houtcomes, hdecided, hscore]
        exact ⟨hne, node, q, List.mem_append_left _ hq, hnode, List.mem_append_left _ hqo, hqp, hqs⟩
      have hbound : ∀ q ∈ u.outcomes, q.promoted = true → ¬ u.bestScore < q.score := by
        rw [houtcomes, hscore]
        exact h.bound
      dsimp only at hrun
      split at hrun
      · next hpromoted =>
          split at hrun
          · cases hrun
          · obtain rfl := Except.ok.inj hrun
            rw [Tally.choose]
            split
            · next hlt =>
                refine ⟨?_, ?_⟩
                · intro q hq hqp hbetter
                  rcases List.mem_append.mp hq with hqold | hqnew
                  · exact hbound q hqold hqp (lt_trans hlt hbetter)
                  · rw [List.mem_singleton.mp hqnew] at hbetter
                    exact lt_irrefl _ hbetter
                · intro nodeId hbest
                  obtain rfl := Option.some.inj hbest
                  exact ⟨hfresh, ctx.node, o, List.mem_append_right _ List.mem_cons_self, rfl,
                    List.mem_append_right _ List.mem_cons_self, hpromoted, rfl⟩
            · next hnlt =>
                refine ⟨?_, hold⟩
                intro q hq hqp
                rcases List.mem_append.mp hq with hqold | hqnew
                · exact hbound q hqold hqp
                · rw [List.mem_singleton.mp hqnew]
                  exact hnlt
      · next hpromoted =>
          obtain rfl := Except.ok.inj hrun
          refine ⟨?_, hold⟩
          intro q hq hqp
          rcases List.mem_append.mp hq with hqold | hqnew
          · exact hbound q hqold hqp
          · rw [List.mem_singleton.mp hqnew] at hqp
            exact absurd hqp hpromoted

theorem tryCandidate_best {t t' : Tally S A} {idx : Nat} {cand : Candidate} (h : t.Best parentId)
    (hfresh : ∀ idx cand node, inj.apply idx parentId cand round = .ok node →
      node.nodeId ≠ parentId)
    (hrun : tryCandidate config inj round parentId e baseline idx cand t = .ok t') :
    t'.Best parentId := by
  rw [tryCandidate] at hrun
  split at hrun
  · obtain rfl := Except.ok.inj hrun
    exact h.fail cand (by decide)
  · obtain rfl := Except.ok.inj hrun
    exact h.fail cand (by decide)
  · next node hnode =>
      split at hrun
      · cases hrun
      · next focusedTaskIds _ =>
          have hregistered : (t.register node).Best
              (decisionOf round parentId e baseline node focusedTaskIds).parentId :=
            ⟨h.bound, h.crowned⟩
          exact decideNode_best hregistered (hfresh idx cand node hnode) hrun

theorem tryAll_best {t t' : Tally S A} {idx : Nat} {cands : List Candidate} (h : t.Best parentId)
    (hfresh : ∀ idx cand node, inj.apply idx parentId cand round = .ok node →
      node.nodeId ≠ parentId)
    (hrun : tryAll config inj round parentId e baseline idx cands t = .ok t') :
    t'.Best parentId := by
  induction cands generalizing idx t with
  | nil =>
      obtain rfl := Except.ok.inj hrun
      exact h
  | cons cand rest ih =>
      rw [tryAll] at hrun
      split at hrun
      · cases hrun
      · next u hu => exact ih (tryCandidate_best h hfresh hu) hrun

/-! ### What a round decides -/

/-- The incumbent stays, or a promoted node of the round takes over that has a better score
than the incumbent and no worse one than the others. -/
def Crowned (parentId : Str) (parentScore : S) (report : RoundReport S) : Prop :=
  (report.result.promoted = false ∧ report.result.nextParentId = parentId ∧
    report.result.nextParentTrain = none) ∨
  ∃ best, report.result.promoted = true ∧ report.result.nextParentTrain = some best ∧
    parentScore < best ∧ report.result.nextParentId ≠ parentId ∧
    (∃ node o, (node, o) ∈ report.decided ∧ node.nodeId = report.result.nextParentId ∧
      o ∈ report.result.outcomes ∧ o.promoted = true ∧ o.score = best) ∧
    ∀ o ∈ report.result.outcomes, o.promoted = true → ¬ best < o.score

/-- Some outcome is a decision, or there is no outcome. -/
def Undisturbed (r : RoundResult S) : Prop :=
  r.outcomes = [] ∨ ∃ o ∈ r.outcomes, o.undecided = false

/-- What the two signals of a result say. -/
structure RoundResult.Signals (r : RoundResult S) : Prop where
  errored : r.errored = false ↔ Undisturbed r
  beaten : r.errored = true → r.beatVanilla = false

variable [One S] [Neg S]

theorem finishRound_cases {parentScore : S} {w w' : Work A} {report : RoundReport S}
    (hrun : finishRound config inj round parentId parentScore w e = .ok (w', report)) :
    report = { result := baselineFailed round parentId e.parent } ∨
    ∃ (baseline : Baseline) (start t : Tally S A) (cands : List Candidate) (verdict : Option Str),
      start.bestNodeId = none ∧ (∀ o ∈ start.outcomes, o.promoted = false) ∧
      tryAll config inj round parentId e baseline 0 cands start = .ok t ∧
      report.result = { roundResult config round parentId parentScore e t with verdict := verdict } ∧
      report.decided = t.decided := by
  rw [finishRound] at hrun
  split at hrun
  · obtain ⟨_, rfl⟩ := Prod.mk.inj (Except.ok.inj hrun)
    exact .inl rfl
  · next baseline _ =>
      dsimp only at hrun
      split at hrun
      · cases hrun
      · next t ht =>
          rw [closeRound] at hrun
          split at hrun
          · cases hrun
          · next verdict _ =>
              obtain ⟨_, rfl⟩ := Prod.mk.inj (Except.ok.inj hrun)
              refine .inr ⟨baseline, _, t, _, verdict, ?_, ?_, ht, rfl, rfl⟩
              · rfl
              · intro o ho
                rcases List.mem_append.mp ho with hdesign | hrecombine
                · exact designAll_unpromoted w o hdesign
                · exact recombineAll_unpromoted e.parent w.archive o hrecombine

theorem finishRound_crowned {parentScore : S} {w w' : Work A} {report : RoundReport S}
    (hfresh : ∀ idx cand node, inj.apply idx parentId cand round = .ok node →
      node.nodeId ≠ parentId)
    (hrun : finishRound config inj round parentId parentScore w e = .ok (w', report)) :
    Crowned parentId parentScore report := by
  rcases finishRound_cases hrun with rfl | ⟨baseline, start, t, cands, verdict, hnone, hall, ht,
    hresult, hdecided⟩
  · exact .inl ⟨rfl, rfl, rfl⟩
  · have hstart : start.Best parentId := by
      refine ⟨fun o ho hpromoted => ?_, fun nodeId hbest => ?_⟩
      · rw [hall o ho] at hpromoted
        cases hpromoted
      · rw [hnone] at hbest
        cases hbest
    have hbest := tryAll_best hstart hfresh ht
    rw [Crowned, hresult, hdecided]
    cases hchampion : champion t parentScore with
    | none =>
        left
        simp only [roundResult, hchampion]
        exact ⟨rfl, rfl, rfl⟩
    | some nodeId =>
        right
        have hwon : parentScore < t.bestScore ∧ t.bestNodeId = some nodeId := by
          rw [champion] at hchampion
          split at hchampion
          · next hlt => exact ⟨hlt, hchampion⟩
          · cases hchampion
        obtain ⟨hne, node, o, hmem, hid, ho, hpromoted, hscore⟩ := hbest.crowned nodeId hwon.2
        refine ⟨t.bestScore, ?_⟩
        simp only [roundResult, hchampion]
        exact ⟨rfl, rfl, hwon.1, hne, ⟨node, o, hmem, hid, ho, hpromoted, hscore⟩, hbest.bound⟩

theorem finishRound_unpromoted {parentScore : S} {w w' : Work A} {report : RoundReport S}
    (hrun : finishRound config inj round parentId parentScore w e = .ok (w', report))
    (h : report.result.promoted = false) : report.result.nextParentTrain = none := by
  rcases finishRound_cases hrun with rfl | ⟨baseline, start, t, cands, verdict, _, _, _, hresult, _⟩
  · rfl
  · rw [hresult] at h ⊢
    simp only [roundResult] at h ⊢
    rw [h]
    rfl

theorem finishRound_signals {parentScore : S} {w w' : Work A} {report : RoundReport S}
    (hrun : finishRound config inj round parentId parentScore w e = .ok (w', report)) :
    report.result.Signals := by
  rcases finishRound_cases hrun with rfl | ⟨baseline, start, t, cands, verdict, _, _, _, hresult, _⟩
  · refine ⟨?_, fun _ => rfl⟩
    simp [Undisturbed, baselineFailed, Outcome.undecided, Outcome.ofStatus]
  · rw [hresult]
    refine ⟨errored_iff t.outcomes, ?_⟩
    intro herrored
    have hall : ∀ o ∈ t.outcomes, o.undecided = true := by
      have h := (Bool.and_eq_true _ _).mp herrored
      exact List.all_eq_true.mp h.2
    have hnone : ∀ o ∈ t.outcomes, o.verdict ≠ .accepted := by
      intro o ho haccepted
      have h := hall o ho
      simp [Outcome.undecided, haccepted] at h
    show (t.outcomes.any fun o => _) = false
    rw [List.any_eq_false]
    intro o ho
    simp [hnone o ho]

end Round

/-! ## Control -/

/-- What the loop goes by. -/
structure Control (S : Type) where
  parentId : Str
  parentScore : S
  roundIndex : Nat
  term : TerminationTracker

def Process.control (p : Process S A) : Control S where
  parentId := p.parentId
  parentScore := p.parentScore
  roundIndex := p.roundIndex
  term := p.term

def replayControl (c : Control S) (rec : Checkpoint S) : Control S where
  parentId := rec.nextParentId
  parentScore := rec.nextParentTrain.getD c.parentScore
  roundIndex := rec.roundIndex
  term := c.term.recordRound (rec.beatVanilla.getD rec.promoted) (rec.errored.getD false)

def startControl (config : LoopConfig S A F) : Control S where
  parentId := config.rootNodeId
  parentScore := config.vanillaTrainMean
  roundIndex := 0
  term := {}

variable {config : LoopConfig S A F}

theorem control_foldl (p : Process S A) (journal : List (Checkpoint S)) :
    (journal.foldl replay p).control = journal.foldl replayControl p.control := by
  induction journal generalizing p with
  | nil => rfl
  | cons rec rest ih => exact ih (replay p rec)

theorem control_resume (disk : Disk S F) :
    (resume config disk).control = disk.journal.foldl replayControl (startControl config) :=
  control_foldl (newProcess config disk) disk.journal

theorem control_advance {p : Process S A} {w : Work A} {r : RoundResult S}
    (h : r.promoted = false → r.nextParentTrain = none) :
    (p.advance config w r).control = replayControl p.control r.checkpoint := by
  have hscore : (if r.promoted then r.nextParentTrain.getD p.parentScore else p.parentScore) =
      r.nextParentTrain.getD p.parentScore := by
    split
    · rfl
    · next hpromoted => rw [h (Bool.eq_false_iff.mpr hpromoted), Option.getD_none]
  rw [Process.control, Process.advance, hscore]
  rfl

/-- The process goes by what the journal says. -/
def LoopState.Replayed (config : LoopConfig S A F) (s : LoopState S A F) : Prop :=
  s.process.control = s.disk.journal.foldl replayControl (startControl config)

/-! ## Counters -/

/-- The rounds since the last one that beat the vanilla mean, and how many of them were not
disturbed. -/
def SinceBeaten (reports : List (RoundReport S)) (count : Nat) : Prop :=
  ∃ before since : List (RoundReport S), reports = before ++ since ∧
    (∀ r ∈ before.getLast?, r.result.beatVanilla = true) ∧
    (∀ r ∈ since, r.result.beatVanilla = false) ∧
    ∃ undisturbed : List (RoundReport S), undisturbed.Sublist since ∧ (∀ r ∈ undisturbed, Undisturbed r.result) ∧
      undisturbed.length = count

theorem SinceBeaten.add {reports : List (RoundReport S)} {term : TerminationTracker}
    (h : SinceBeaten reports term.consecutiveNoPromotion) {r : RoundReport S}
    (hsignals : r.result.Signals) :
    SinceBeaten (reports ++ [r])
      (term.recordRound r.result.beatVanilla r.result.errored).consecutiveNoPromotion := by
  obtain ⟨before, since, rfl, hbefore, hsince, undisturbed, hsub, hall, hlength⟩ := h
  have hlast : r.result.beatVanilla = false → ∀ q ∈ since ++ [r], q.result.beatVanilla = false := by
    intro hr q hq
    rcases List.mem_append.mp hq with hold | hnew
    · exact hsince q hold
    · rw [List.mem_singleton.mp hnew]
      exact hr
  rw [TerminationTracker.recordRound]
  cases herrored : r.result.errored with
  | true =>
      refine ⟨before, since ++ [r], List.append_assoc .., hbefore, hlast (hsignals.beaten herrored),
        undisturbed, ?_, hall, hlength⟩
      exact hsub.trans (List.sublist_append_left _ _)
  | false =>
      cases hbeat : r.result.beatVanilla with
      | true =>
          refine ⟨before ++ since ++ [r], [], (List.append_nil _).symm, ?_, nofun, [],
            List.Sublist.refl _, nofun, rfl⟩
          intro q hq
          rw [List.getLast?_concat] at hq
          rw [← Option.some.inj hq]
          exact hbeat
      | false =>
          refine ⟨before, since ++ [r], List.append_assoc .., hbefore, hlast hbeat,
            undisturbed ++ [r], hsub.append (List.Sublist.refl _), ?_, ?_⟩
          · intro q hq
            rcases List.mem_append.mp hq with hold | hnew
            · exact hall q hold
            · rw [List.mem_singleton.mp hnew]
              exact hsignals.errored.mp herrored
          · rw [List.length_append, hlength]
            rfl

/-- The counters of a process after the rounds that were reported. -/
structure Counted (config : LoopConfig S A F) (outs : List (Option (RoundReport S)))
    (s : LoopState S A F) : Prop where
  replayed : s.Replayed config
  rounds : s.process.term.roundsCompleted = outs.reduceOption.length
  bounded : s.process.term.roundsCompleted ≤ config.limits.maxRounds
  patience : SinceBeaten outs.reduceOption s.process.term.consecutiveNoPromotion
  going : s.process.ending = none → s.process.term.shouldStop config.limits = none
  ending : ∀ reason, s.process.ending = some (.stopped reason) →
    s.process.term.shouldStop config.limits = some reason

theorem counted_new : Counted config [] (newLoop config) where
  replayed := control_resume {}
  rounds := rfl
  bounded := Nat.zero_le _
  patience := ⟨[], [], rfl, nofun, nofun, [], List.Sublist.refl _, nofun, rfl⟩
  going h := Option.map_eq_none_iff.mp h
  ending reason h := by
    obtain ⟨other, hother, hsame⟩ := Option.map_eq_some_iff.mp h
    rw [← Ending.stopped.inj hsame]
    exact hother

/-! ## Steps -/

variable [Preorder S] [DecidableLT S] [Zero S] [One S] [Neg S]

/-- A round that ends, with what it has left; every other step leaves the control. -/
theorem step_cases (config : LoopConfig S A F) (s : LoopState S A F) (i : LoopStep S) :
    ((loopMachine config).out s i = none ∧
      ((loopMachine config).next s i).disk.journal = s.disk.journal ∧
      (((loopMachine config).next s i).process.control = s.process.control ∨
        ((loopMachine config).next s i).process =
          resume config ((loopMachine config).next s i).disk)) ∨
    ∃ inj w report, s.process.ending = none ∧ (i = .round inj ∨ i = .cutRound inj) ∧
      runRound config inj s = .ok (w, report) ∧
      (loopMachine config).out s i = some report ∧
      ((loopMachine config).next s i).disk.journal = s.disk.journal ++ [report.result.checkpoint] ∧
      (((loopMachine config).next s i).process = s.process.advance config w report.result ∨
        ((loopMachine config).next s i).process =
          resume config ((loopMachine config).next s i).disk) := by
  rw [Machine.next, Machine.out]
  cases i with
  | resume => exact .inl ⟨rfl, rfl, .inr rfl⟩
  | cutEntrance inj =>
      simp only [loopMachine]
      split
      · exact .inl ⟨rfl, rfl, .inl rfl⟩
      · split
        · exact .inl ⟨rfl, rfl, .inl rfl⟩
        · exact .inl ⟨rfl, rfl, .inr rfl⟩
  | round inj =>
      simp only [loopMachine]
      split
      · exact .inl ⟨rfl, rfl, .inl rfl⟩
      · next hending =>
          split
          · exact .inl ⟨rfl, rfl, .inl rfl⟩
          · next w report hrun =>
              exact .inr ⟨inj, w, report, by simpa using hending, .inl rfl, hrun, rfl, rfl, .inl rfl⟩
  | cutRound inj =>
      simp only [loopMachine]
      split
      · exact .inl ⟨rfl, rfl, .inl rfl⟩
      · next hending =>
          split
          · exact .inl ⟨rfl, rfl, .inl rfl⟩
          · next w report hrun =>
              exact .inr ⟨inj, w, report, by simpa using hending, .inr rfl, hrun, rfl, rfl, .inr rfl⟩

theorem runRound_ok {inj : Injected S} {s : LoopState S A F} {w : Work A} {report : RoundReport S}
    (h : runRound config inj s = .ok (w, report)) :
    ∃ w' e, finishRound config.toRoundConfig inj (s.process.roundIndex + 1) s.process.parentId
      s.process.parentScore w' e = .ok (w, report) := by
  rw [runRound] at h
  split at h
  · cases h
  · next w' e _ => exact ⟨w', e, h⟩

/-- A step leaves the control, or ends a round and goes by its record. -/
theorem next_control {s : LoopState S A F} (h : s.Replayed config) (i : LoopStep S) :
    ((loopMachine config).next s i).Replayed config ∧
    (((loopMachine config).out s i = none ∧
        ((loopMachine config).next s i).process.control = s.process.control) ∨
      ∃ inj w report, s.process.ending = none ∧ (i = .round inj ∨ i = .cutRound inj) ∧
        runRound config inj s = .ok (w, report) ∧ (loopMachine config).out s i = some report ∧
        ((loopMachine config).next s i).process.control =
          replayControl s.process.control report.result.checkpoint) := by
  rcases step_cases config s i with ⟨hout, hjournal, hprocess⟩ |
    ⟨inj, w, report, hending, hi, hrun, hout, hjournal, hprocess⟩
  · have hsame : ((loopMachine config).next s i).process.control = s.process.control := by
      rcases hprocess with hsame | hresumed
      · exact hsame
      · rw [hresumed, control_resume, hjournal]
        exact h.symm
    refine ⟨?_, .inl ⟨hout, hsame⟩⟩
    rw [LoopState.Replayed, hsame, hjournal]
    exact h
  · have hnext : ((loopMachine config).next s i).process.control =
        replayControl s.process.control report.result.checkpoint := by
      rcases hprocess with hadvanced | hresumed
      · obtain ⟨w', e, hfinish⟩ := runRound_ok hrun
        rw [hadvanced]
        exact control_advance (finishRound_unpromoted hfinish)
      · rw [hresumed, control_resume, hjournal, List.foldl_concat, ← h]
    refine ⟨?_, .inr ⟨inj, w, report, hending, hi, hrun, hout, hnext⟩⟩
    rw [LoopState.Replayed, hnext, hjournal, List.foldl_concat, ← h]

/-! ## The chain -/

/-- The applied nodes are not the parent. -/
def FreshNodes (s : LoopState S A F) : LoopStep S → Prop
  | .round inj | .cutRound inj => ∀ idx cand node,
      inj.apply idx s.process.parentId cand (s.process.roundIndex + 1) = .ok node →
      node.nodeId ≠ s.process.parentId
  | _ => True

/-- The incumbent stays, or a promoted node of the round takes over. -/
def ChampionStep (config : LoopConfig S A F) (s : LoopState S A F) (i : LoopStep S) : Prop :=
  let s' := (loopMachine config).next s i
  (s'.process.parentId = s.process.parentId ∧ s'.process.parentScore = s.process.parentScore) ∨
  ∃ report, (loopMachine config).out s i = some report ∧
    s.process.parentScore < s'.process.parentScore ∧
    s'.process.parentId ≠ s.process.parentId ∧
    (∃ node o, (node, o) ∈ report.decided ∧ node.nodeId = s'.process.parentId ∧
      o ∈ report.result.outcomes ∧ o.promoted = true ∧ o.score = s'.process.parentScore) ∧
    ∀ o ∈ report.result.outcomes, o.promoted = true → ¬ s'.process.parentScore < o.score

theorem champion_step {s : LoopState S A F} (h : s.Replayed config) {i : LoopStep S}
    (hfresh : FreshNodes s i) : ChampionStep config s i := by
  rcases (next_control h i).2 with ⟨_, hsame⟩ | ⟨inj, w, report, _, hi, hrun, hout, hnext⟩
  · exact .inl ⟨congrArg Control.parentId hsame, congrArg Control.parentScore hsame⟩
  · have hnew : ∀ idx cand node,
        inj.apply idx s.process.parentId cand (s.process.roundIndex + 1) = .ok node →
        node.nodeId ≠ s.process.parentId := by
      rcases hi with rfl | rfl
      · exact hfresh
      · exact hfresh
    obtain ⟨w', e, hfinish⟩ := runRound_ok hrun
    have hid : ((loopMachine config).next s i).process.parentId = report.result.nextParentId :=
      congrArg Control.parentId hnext
    have hscore : ((loopMachine config).next s i).process.parentScore =
        report.result.nextParentTrain.getD s.process.parentScore :=
      congrArg Control.parentScore hnext
    rcases finishRound_crowned hnew hfinish with ⟨_, hstay, hnone⟩ |
      ⟨best, _, htrain, hlt, hne, hnode, hbound⟩
    · exact .inl ⟨hid.trans hstay, by rw [hscore, hnone, Option.getD_none]⟩
    · rw [htrain, Option.getD_some] at hscore
      refine .inr ⟨report, hout, ?_, ?_, ?_, ?_⟩
      · rw [hscore]
        exact hlt
      · rw [hid]
        exact hne
      · rw [hid, hscore]
        exact hnode
      · rw [hscore]
        exact hbound

/-! ## Termination -/

/-- A process ends when its counters say so, or when something raises. -/
theorem next_ending (config : LoopConfig S A F) (s : LoopState S A F) (i : LoopStep S) :
    ((loopMachine config).next s i).process.ending =
        (((loopMachine config).next s i).process.term.shouldStop config.limits).map .stopped ∨
      (∃ error, ((loopMachine config).next s i).process.ending = some (.raised error)) ∨
      ((loopMachine config).out s i = none ∧ (loopMachine config).next s i = s) := by
  have hresume : ∀ disk : Disk S F, (resume config disk).ending =
      ((resume config disk).term.shouldStop config.limits).map .stopped := fun _ => rfl
  rw [Machine.next, Machine.out]
  cases i with
  | resume => exact .inl (hresume _)
  | cutEntrance inj =>
      simp only [loopMachine]
      split
      · exact .inr (.inr ⟨rfl, rfl⟩)
      · split
        · exact .inr (.inl ⟨_, rfl⟩)
        · exact .inl (hresume _)
  | round inj =>
      simp only [loopMachine]
      split
      · exact .inr (.inr ⟨rfl, rfl⟩)
      · split
        · exact .inr (.inl ⟨_, rfl⟩)
        · exact .inl rfl
  | cutRound inj =>
      simp only [loopMachine]
      split
      · exact .inr (.inr ⟨rfl, rfl⟩)
      · split
        · exact .inr (.inl ⟨_, rfl⟩)
        · exact .inl (hresume _)

theorem rounds_lt_of_not_stopped {limits : Termination} {term : TerminationTracker}
    (h : term.shouldStop limits = none) : term.roundsCompleted < limits.maxRounds := by
  rw [TerminationTracker.shouldStop] at h
  split at h
  · cases h
  · next hlt => exact not_le.mp hlt

theorem patience_le_of_exhausted {limits : Termination} {term : TerminationTracker}
    (h : term.shouldStop limits = some .patienceExhausted) :
    limits.patience ≤ term.consecutiveNoPromotion := by
  rw [TerminationTracker.shouldStop] at h
  split at h
  · cases h
  · split at h
    · cases h
    · split at h
      · next hle => exact hle
      · cases h

theorem Counted.next {outs : List (Option (RoundReport S))} {s : LoopState S A F}
    (h : Counted config outs s) (i : LoopStep S) :
    Counted config (outs ++ [(loopMachine config).out s i]) ((loopMachine config).next s i) := by
  obtain ⟨hreplayed, hcontrol⟩ := next_control h.replayed i
  have hgoing : ((loopMachine config).next s i).process.ending = none →
      ((loopMachine config).next s i).process.term.shouldStop config.limits = none := by
    intro hnone
    rcases next_ending config s i with heq | ⟨error, heq⟩ | ⟨_, heq⟩
    · rw [hnone] at heq
      exact Option.map_eq_none_iff.mp heq.symm
    · rw [hnone] at heq
      cases heq
    · rw [heq] at hnone ⊢
      exact h.going hnone
  have hstopped : ∀ reason,
      ((loopMachine config).next s i).process.ending = some (.stopped reason) →
      ((loopMachine config).next s i).process.term.shouldStop config.limits = some reason := by
    intro reason hreason
    rcases next_ending config s i with heq | ⟨error, heq⟩ | ⟨_, heq⟩
    · rw [hreason] at heq
      obtain ⟨other, hother, hsame⟩ := Option.map_eq_some_iff.mp heq.symm
      rw [hother, Ending.stopped.inj hsame]
    · rw [hreason] at heq
      cases heq
    · rw [heq] at hreason ⊢
      exact h.ending reason hreason
  rcases hcontrol with ⟨hout, hsame⟩ | ⟨inj, w, report, hending, _, hrun, hout, hnext⟩
  · have hterm : ((loopMachine config).next s i).process.term = s.process.term :=
      congrArg Control.term hsame
    have hreports : (outs ++ [(loopMachine config).out s i]).reduceOption = outs.reduceOption := by
      rw [hout, List.reduceOption_append, List.reduceOption_singleton, Option.toList_none,
        List.append_nil]
    refine ⟨hreplayed, ?_, ?_, ?_, hgoing, hstopped⟩
    · rw [hterm, hreports]
      exact h.rounds
    · rw [hterm]
      exact h.bounded
    · rw [hterm, hreports]
      exact h.patience
  · obtain ⟨w', e, hfinish⟩ := runRound_ok hrun
    have hterm : ((loopMachine config).next s i).process.term =
        s.process.term.recordRound report.result.beatVanilla report.result.errored :=
      congrArg Control.term hnext
    have hreports : (outs ++ [(loopMachine config).out s i]).reduceOption =
        outs.reduceOption ++ [report] := by
      rw [hout, List.reduceOption_append, List.reduceOption_singleton, Option.toList_some]
    refine ⟨hreplayed, ?_, ?_, ?_, hgoing, hstopped⟩
    · rw [hterm, hreports, List.length_append, ← h.rounds]
      rfl
    · rw [hterm]
      exact rounds_lt_of_not_stopped (h.going hending)
    · rw [hterm, hreports]
      exact h.patience.add (finishRound_signals hfinish)

/-- Over all rounds and resumptions the incumbent changes only to the best promoted node of a
round, with a better score; at most `max_rounds` rounds are completed; and the patience is
exhausted only after that many undisturbed rounds since the last one that beat the vanilla
mean. -/
theorem champions_and_bounds (config : LoopConfig S A F) {steps : List (LoopStep S)}
    (hfresh : (loopMachine config).Along FreshNodes (newLoop config) steps) :
    let reports := ((loopMachine config).outs (newLoop config) steps).reduceOption
    let last := (loopMachine config).run (newLoop config) steps
    (loopMachine config).Along (ChampionStep config) (newLoop config) steps ∧
    reports.length ≤ config.limits.maxRounds ∧
    (last.process.ending = some (.stopped .patienceExhausted) →
      ∃ count, config.limits.patience ≤ count ∧ SinceBeaten reports count) := by
  have hcounted : Counted config ((loopMachine config).outs (newLoop config) steps)
      ((loopMachine config).run (newLoop config) steps) :=
    Machine.run_history (P := Counted config) (G := fun _ _ => True)
      (fun _ _ i h _ => h.next i) counted_new (Machine.along_true _ _)
  refine ⟨?_, ?_, ?_⟩
  · exact Machine.along_of_along (P := LoopState.Replayed config)
      (fun s i h _ => (next_control h i).1) (fun s i h hi => champion_step h hi)
      counted_new.replayed hfresh
  · exact hcounted.rounds ▸ hcounted.bounded
  · intro hexhausted
    exact ⟨_, patience_le_of_exhausted (hcounted.ending _ hexhausted), hcounted.patience⟩

/-! ## Two runs -/

/-- An evolution without an archive. -/
def plainConfig (patience : Nat) (h : 1 ≤ patience) : LoopConfig ℚ Unit Unit where
  vanillaTrainMean := 0
  trainTaskIds := ["t".toList]
  mergeFailureMaps _ roundMap := .ok roundMap
  archive :=
    { eligible := fun _ _ => .ok []
      recordPairing := fun archive _ _ _ => archive
      consider := fun archive _ _ _ _ _ => archive
      save := fun archive => archive
      load := fun _ => () }
  rootNodeId := "v0".toList
  limits := { Termination.standard with patience := patience, patience_pos := h }

/-- Every design is the same, and every candidate is applied as `v1` and promoted. -/
def promoting (designed : List Candidate) : Injected ℚ where
  precheck := .ok ()
  selectAnchor := .ok { taskIds := ["t".toList], sigmaScreen := 1, cullThreshold := 1 }
  forRound _ _ _ := .ok { evals := ∅, mean := 0, label := "vanilla".toList }
  diagnose _ _ := .ok {}
  design _ _ _ := .ok designed
  preflight _ _ _ := .ok true
  recombine _ _ _ := .ok none
  apply _ _ _ _ := .ok { nodeId := "v1".toList, gitCommitSha := "c1".toList }
  focusedSource _ _ := .ok []
  decide _ _ := .ok
    { status := .promotedToBaseline
      score := 1 / 2
      confirmEvals := (∅ : Evals).set "t".toList (halfPassed "t".toList)
      verdict := .accepted }
  evidence _ _ _ := .ok ()
  onPromote _ _ _ := .ok ()
  draftVerdict _ := .ok none

theorem fresh_promoting (designed : List Candidate) :
    (loopMachine (plainConfig 1 le_rfl)).Along FreshNodes (newLoop (plainConfig 1 le_rfl))
      [.round (promoting designed)] := by
  refine ⟨?_, trivial⟩
  intro idx cand node hnode
  obtain rfl := Except.ok.inj hnode
  exact (by decide : "v1".toList ≠ "v0".toList)

theorem promotion_crowns :
    ((loopMachine (plainConfig 1 le_rfl)).next (newLoop (plainConfig 1 le_rfl))
      (.round (promoting [.bench {}]))).process.parentId = "v1".toList ∧
    ChampionStep (plainConfig 1 le_rfl) (newLoop (plainConfig 1 le_rfl))
      (.round (promoting [.bench {}])) :=
  ⟨by decide +kernel,
    (champions_and_bounds (plainConfig 1 le_rfl) (fresh_promoting [.bench {}])).1.1⟩

/-- A round without candidates takes from the patience, though nothing was decided in it. -/
theorem emptyRound_exhausts :
    let reports := (loopMachine (plainConfig 1 le_rfl)).outs (newLoop (plainConfig 1 le_rfl))
      [.round (promoting [])]
    (loopMachine (plainConfig 1 le_rfl)).Along FreshNodes (newLoop (plainConfig 1 le_rfl))
      [.round (promoting [])] ∧
    ((loopMachine (plainConfig 1 le_rfl)).run (newLoop (plainConfig 1 le_rfl))
      [.round (promoting [])]).process.ending = some (.stopped .patienceExhausted) ∧
    ∀ report ∈ reports.reduceOption, ¬ ∃ o ∈ report.result.outcomes, o.undecided = false := by
  refine ⟨fresh_promoting [], by decide +kernel, ?_⟩
  have hnone : (((loopMachine (plainConfig 1 le_rfl)).outs (newLoop (plainConfig 1 le_rfl))
      [.round (promoting [])]).reduceOption.all fun report => report.result.outcomes.isEmpty) =
        true := by
    decide +kernel
  intro report hreport
  have hempty := List.isEmpty_iff.mp (List.all_eq_true.mp hnone report hreport)
  rintro ⟨o, ho, _⟩
  rw [hempty] at ho
  cases ho

end Evolver
end CodeCub

import CodeCub.Evolver.Champion
import CodeCub.Evolver.Lineage

/-!
# Resuming an evolution

An evolution that is killed after the journal record of a round and before the first
evaluation of the next one, and resumed, goes on as the one that was not killed, when the
archive had been saved.
-/

namespace CodeCub
namespace Evolver

open Python

variable {S A F : Type}

/-! ## Rounds that start alike -/

/-- Both raise the same, or both return related values. -/
def Agree {ε α β : Type} (R : α → β → Prop) : Except ε α → Except ε β → Prop
  | .ok a, .ok b => R a b
  | .error e, .error f => e = f
  | _, _ => False

/-- The same failure map and the same archive. -/
structure Work.Alike (w u : Work A) : Prop where
  failureMap : w.failureMap = u.failureMap
  archive : w.archive = u.archive

/-- Two tallies that differ only in the nodes they do not choose from. -/
structure Tally.Alike (t u : Tally S A) : Prop where
  work : t.work.Alike u.work
  outcomes : t.outcomes = u.outcomes
  decided : t.decided = u.decided
  bestNodeId : t.bestNodeId = u.bestNodeId
  bestScore : t.bestScore = u.bestScore
  best : ∀ nodeId, t.bestNodeId = some nodeId →
    t.work.registry.get nodeId = u.work.registry.get nodeId

section Round

variable {config : RoundConfig S A F} {inj : Injected S} {round : Nat} {parentId : Str}
  {e : Entrance} {baseline : Baseline} {t u : Tally S A}

theorem Tally.Alike.fail [Zero S] (h : t.Alike u) (cand : Candidate) (status : NodeStatus) :
    (t.fail config parentId cand status).Alike (u.fail config parentId cand status) := by
  have hwork : (t.fail config parentId cand status).work.Alike
      (u.fail config parentId cand status).work ∧
      (t.fail config parentId cand status).work.registry = t.work.registry ∧
      (u.fail config parentId cand status).work.registry = u.work.registry := by
    simp only [Tally.fail]
    split
    · exact ⟨h.work, rfl, rfl⟩
    · refine ⟨⟨h.work.failureMap, ?_⟩, rfl, rfl⟩
      simp only [h.work.archive]
  refine ⟨hwork.1, ?_, h.decided, h.bestNodeId, h.bestScore, ?_⟩
  · simp only [Tally.fail, h.outcomes]
  · intro nodeId hbest
    rw [hwork.2.1, hwork.2.2]
    exact h.best nodeId hbest

theorem Tally.Alike.register (h : t.Alike u) (node : NodeRef) :
    (t.register node).Alike (u.register node) ∧
      (t.register node).work.registry.get node.nodeId =
        (u.register node).work.registry.get node.nodeId := by
  refine ⟨⟨⟨h.work.failureMap, h.work.archive⟩, h.outcomes, h.decided, h.bestNodeId, h.bestScore,
    ?_⟩, ?_⟩
  · intro nodeId hbest
    simp only [Tally.register, OrderedDict.get_set]
    rw [h.best nodeId hbest]
  · simp only [Tally.register, OrderedDict.get_set_self]

theorem Tally.Alike.noteFlips (h : t.Alike u) (ids : List Str) (ctx : Decision) (o : Outcome S) :
    (t.noteFlips ids ctx o).Alike (u.noteFlips ids ctx o) ∧
      (t.noteFlips ids ctx o).work.registry = t.work.registry ∧
      (u.noteFlips ids ctx o).work.registry = u.work.registry := by
  simp only [Tally.noteFlips]
  split
  · exact ⟨h, rfl, rfl⟩
  · refine ⟨⟨⟨?_, h.work.archive⟩, h.outcomes, h.decided, h.bestNodeId, h.bestScore, h.best⟩, rfl,
      rfl⟩
    simp only [h.work.failureMap]

theorem Tally.Alike.note (h : t.Alike u) (ctx : Decision) (cand : Candidate) (o : Outcome S) :
    (t.note config ctx cand o).Alike (u.note config ctx cand o) := by
  refine ⟨⟨h.work.failureMap, ?_⟩, ?_, ?_, h.bestNodeId, h.bestScore, h.best⟩
  · simp only [Tally.note, h.work.archive]
  · simp only [Tally.note, h.outcomes]
  · simp only [Tally.note, h.decided]

variable [LT S] [DecidableLT S]

theorem Tally.Alike.choose (h : t.Alike u) (node : NodeRef) (o : Outcome S)
    (hnode : t.work.registry.get node.nodeId = u.work.registry.get node.nodeId) :
    (t.choose node o).Alike (u.choose node o) := by
  simp only [Tally.choose]
  rw [← h.bestScore]
  split
  · refine ⟨h.work, h.outcomes, h.decided, rfl, rfl, ?_⟩
    intro nodeId hbest
    rw [← Option.some.inj hbest]
    exact hnode
  · exact h

variable [Zero S]

theorem decideNode_agree (h : t.Alike u) (idx : Nat) (cand : Candidate) (ctx : Decision)
    (hnode : t.work.registry.get ctx.node.nodeId = u.work.registry.get ctx.node.nodeId) :
    Agree Tally.Alike (decideNode config inj idx cand ctx t) (decideNode config inj idx cand ctx u) := by
  rw [decideNode, decideNode]
  cases inj.decide idx ctx with
  | error error => exact h.fail cand .errored
  | ok decided =>
      dsimp only
      obtain ⟨hflips, hregistry, hregistry'⟩ := h.noteFlips config.trainTaskIds ctx decided
      have hnoted : ((t.noteFlips config.trainTaskIds ctx decided).note config ctx cand
          (withEvidence inj idx ctx decided)).Alike ((u.noteFlips config.trainTaskIds ctx
            decided).note config ctx cand (withEvidence inj idx ctx decided)) :=
        hflips.note ctx cand _
      split
      · cases inj.onPromote idx ctx.node (withEvidence inj idx ctx decided) with
        | error error => rfl
        | ok _ =>
            refine hnoted.choose ctx.node _ ?_
            show (t.noteFlips _ _ _).work.registry.get _ = (u.noteFlips _ _ _).work.registry.get _
            rw [hregistry, hregistry']
            exact hnode
      · exact hnoted

theorem tryCandidate_agree (h : t.Alike u) (idx : Nat) (cand : Candidate) :
    Agree Tally.Alike (tryCandidate config inj round parentId e baseline idx cand t)
      (tryCandidate config inj round parentId e baseline idx cand u) := by
  rw [tryCandidate, tryCandidate]
  split
  · exact h.fail cand .rejectedAtManifest
  · exact h.fail cand .errored
  · next node _ =>
      cases inj.focusedSource idx node with
      | error error => rfl
      | ok focusedTaskIds =>
          obtain ⟨hregistered, hnode⟩ := h.register node
          exact decideNode_agree hregistered idx cand
            (decisionOf round parentId e baseline node focusedTaskIds) hnode

theorem tryAll_agree (h : t.Alike u) (idx : Nat) (cands : List Candidate) :
    Agree Tally.Alike (tryAll config inj round parentId e baseline idx cands t)
      (tryAll config inj round parentId e baseline idx cands u) := by
  induction cands generalizing idx t u with
  | nil => exact h
  | cons cand rest ih =>
      rw [tryAll, tryAll]
      have hfirst : Agree Tally.Alike
          (tryCandidate config inj round parentId e baseline idx cand t)
          (tryCandidate config inj round parentId e baseline idx cand u) :=
        tryCandidate_agree h idx cand
      generalize tryCandidate config inj round parentId e baseline idx cand t = first at hfirst ⊢
      generalize tryCandidate config inj round parentId e baseline idx cand u = second at hfirst ⊢
      cases first with
      | error error =>
          cases second with
          | error other => exact hfirst
          | ok v => exact hfirst.elim
      | ok v =>
          cases second with
          | error other => exact hfirst.elim
          | ok v' => exact ih hfirst (idx + 1)

end Round

/-! ## What a round leaves -/

section Round

variable {config : RoundConfig S A F} {inj : Injected S} {round : Nat} {parentId : Str}
  {e : Entrance} {baseline : Baseline} {t u : Tally S A} {fresh : Str → Prop} {w : Work A}

/-- The outcome has confirm evaluations. -/
def Outcome.confirmed (o : Outcome S) : Bool := !o.confirmEvals.entries.isEmpty

/-- The candidates leave the file of the failure map, note flips only with a confirmed
outcome, and do not touch the entry of the parent. -/
structure Tally.Tidy (parentId : Str) (fresh : Str → Prop) (w : Work A) (t : Tally S A) :
    Prop where
  mapFile : t.work.mapFile = w.mapFile
  failureMap : t.work.failureMap = w.failureMap ∨ t.outcomes.any Outcome.confirmed = true
  parent : t.work.registry.get parentId = w.registry.get parentId
  best : ∀ nodeId, t.bestNodeId = some nodeId → fresh nodeId ∧ nodeId ≠ parentId ∧
    ∃ node, t.work.registry.get nodeId = some node ∧ node.nodeId = nodeId

theorem Tally.Tidy.fail [Zero S] (h : t.Tidy parentId fresh w) (cand : Candidate) (status : NodeStatus) :
    (t.fail config parentId cand status).Tidy parentId fresh w := by
  have hwork : (t.fail config parentId cand status).work.mapFile = t.work.mapFile ∧
      (t.fail config parentId cand status).work.failureMap = t.work.failureMap ∧
      (t.fail config parentId cand status).work.registry = t.work.registry := by
    simp only [Tally.fail]
    split <;> exact ⟨rfl, rfl, rfl⟩
  refine ⟨hwork.1.trans h.mapFile, ?_, ?_, ?_⟩
  · rw [hwork.2.1]
    refine h.failureMap.imp_right fun hany => ?_
    show (t.outcomes ++ [_]).any _ = true
    rw [List.any_append, hany, Bool.true_or]
  · rw [hwork.2.2]
    exact h.parent
  · rw [hwork.2.2]
    exact h.best

theorem Tally.Tidy.register (h : t.Tidy parentId fresh w) {node : NodeRef}
    (hnode : node.nodeId ≠ parentId) : (t.register node).Tidy parentId fresh w := by
  refine ⟨h.mapFile, h.failureMap, ?_, ?_⟩
  · simp only [Tally.register]
    rw [OrderedDict.get_set_ne _ _ (Ne.symm hnode)]
    exact h.parent
  · intro nodeId hbest
    obtain ⟨hfresh, hne, other, hget, hid⟩ := h.best nodeId hbest
    refine ⟨hfresh, hne, ?_⟩
    simp only [Tally.register, OrderedDict.get_set]
    split
    · next hsame => exact ⟨node, rfl, hsame.symm⟩
    · exact ⟨other, hget, hid⟩

theorem confirmed_withEvidence (idx : Nat) (ctx : Decision) (o : Outcome S) :
    (withEvidence inj idx ctx o).confirmed = o.confirmed := by
  rw [withEvidence]
  split <;> rfl

/-- The flips of a decided outcome come with the outcome. -/
theorem Tally.Tidy.noteDecided (h : t.Tidy parentId fresh w) (idx : Nat) (cand : Candidate)
    (ctx : Decision) (decided : Outcome S) :
    ((t.noteFlips config.trainTaskIds ctx decided).note config ctx cand
      (withEvidence inj idx ctx decided)).Tidy parentId fresh w := by
  have hany : ∀ outcomes : List (Outcome S), decided.confirmed = true →
      (outcomes ++ [withEvidence inj idx ctx decided]).any Outcome.confirmed = true := by
    intro outcomes hconfirmed
    rw [List.any_append, List.any_cons, confirmed_withEvidence, hconfirmed, Bool.true_or,
      Bool.or_true]
  rw [Tally.noteFlips]
  split
  · refine ⟨h.mapFile, ?_, h.parent, h.best⟩
    refine h.failureMap.imp_right fun hold => ?_
    show (t.outcomes ++ [_]).any _ = true
    rw [List.any_append, hold, Bool.true_or]
  · next hempty =>
      have hconfirmed : decided.confirmed = true := by simpa [Outcome.confirmed] using hempty
      exact ⟨h.mapFile, .inr (hany _ hconfirmed), h.parent, h.best⟩

theorem noteFlips_registry (t : Tally S A) (ids : List Str) (ctx : Decision) (o : Outcome S) :
    (t.noteFlips ids ctx o).work.registry = t.work.registry := by
  rw [Tally.noteFlips]
  split <;> rfl

theorem persistFlips_mapFile (h : t.Tidy parentId fresh w) (seed : FailureMap)
    (hseed : w.mapFile.getD seed = w.failureMap) :
    (persistFlips t).mapFile.getD seed = (persistFlips t).failureMap := by
  rw [persistFlips]
  split
  · rfl
  · next hnone =>
      rcases h.failureMap with hsame | hany
      · rw [h.mapFile, hseed, hsame]
      · exact absurd hany hnone

theorem persistFlips_work (t : Tally S A) : (persistFlips t).registry = t.work.registry ∧
    (persistFlips t).failureMap = t.work.failureMap ∧ (persistFlips t).archive = t.work.archive := by
  rw [persistFlips]
  split <;> exact ⟨rfl, rfl, rfl⟩

variable [LT S] [DecidableLT S]

theorem Tally.Tidy.choose (h : t.Tidy parentId fresh w) {node : NodeRef} (o : Outcome S)
    (hfresh : fresh node.nodeId) (hne : node.nodeId ≠ parentId)
    (hnode : t.work.registry.get node.nodeId = some node) :
    (t.choose node o).Tidy parentId fresh w := by
  rw [Tally.choose]
  split
  · refine ⟨h.mapFile, h.failureMap, h.parent, ?_⟩
    intro nodeId hbest
    rw [← Option.some.inj hbest]
    exact ⟨hfresh, hne, node, hnode, rfl⟩
  · exact h

/-- What a round leaves for the next one. -/
structure Left (parentId : Str) (fresh : Str → Prop) (w w' : Work A) (r : RoundResult S) :
    Prop where
  parentId_eq : r.parentId = parentId
  failureMap : ∀ seed, w.mapFile.getD seed = w.failureMap → w'.mapFile.getD seed = w'.failureMap
  next : (r.nextParentId = parentId ∧ w'.registry.get parentId = w.registry.get parentId) ∨
    (fresh r.nextParentId ∧ r.nextParentId ≠ parentId ∧
      ∃ node, w'.registry.get r.nextParentId = some node ∧ node.nodeId = r.nextParentId ∧
        r.nextParentSha = shaOrNone node.gitCommitSha)

theorem closeRound_left {parentScore : S} {w' : Work A} {report : RoundReport S}
    {proposed : List CellElite} (htidy : t.Tidy parentId fresh w)
    (hrun : closeRound config inj round parentId parentScore e proposed t = .ok (w', report)) :
    Left parentId fresh w w' report.result := by
  rw [closeRound] at hrun
  split at hrun
  · cases hrun
  · next verdict _ =>
      obtain ⟨rfl, rfl⟩ := Prod.mk.inj (Except.ok.inj hrun)
      refine ⟨rfl, persistFlips_mapFile htidy, ?_⟩
      rw [(persistFlips_work t).1]
      cases hchampion : champion t parentScore with
      | none =>
          left
          simp only [roundResult, hchampion]
          exact ⟨rfl, htidy.parent⟩
      | some nodeId =>
          right
          have hbest : t.bestNodeId = some nodeId := by
            rw [champion] at hchampion
            split at hchampion
            · exact hchampion
            · cases hchampion
          obtain ⟨hnew, hne, node, hget, hid⟩ := htidy.best nodeId hbest
          simp only [roundResult, hchampion, Option.getD_some]
          refine ⟨hnew, hne, node, hget, hid, ?_⟩
          rw [hget, Option.getD_some]

/-- The node that is the next parent is the same. -/
theorem next_agree (h : t.Alike u) {v : Work A} (ht : t.Tidy parentId fresh w)
    (hu : u.Tidy parentId fresh v) (hw : e.parent = loadParent w.registry parentId)
    (hv : e.parent = loadParent v.registry parentId) (parentScore : S) :
    (t.work.registry.get ((champion t parentScore).getD parentId)).getD e.parent =
      (u.work.registry.get ((champion t parentScore).getD parentId)).getD e.parent := by
  cases hchampion : champion t parentScore with
  | none =>
      rw [Option.getD_none, ht.parent, hu.parent]
      cases hget : w.registry.get parentId with
      | none =>
          cases hget' : v.registry.get parentId with
          | none => rfl
          | some node => rw [hv, loadParent, hget', Option.getD_none, Option.getD_some, Option.getD_some]
      | some node =>
          have hnode : e.parent = node := by rw [hw, loadParent, hget, Option.getD_some]
          cases hget' : v.registry.get parentId with
          | none => rw [Option.getD_some, Option.getD_none, hnode]
          | some other =>
              have hother : e.parent = other := by rw [hv, loadParent, hget', Option.getD_some]
              rw [Option.getD_some, Option.getD_some, ← hnode, hother]
  | some nodeId =>
      have hbest : t.bestNodeId = some nodeId := by
        rw [champion] at hchampion
        split at hchampion
        · exact hchampion
        · cases hchampion
      rw [Option.getD_some, h.best nodeId hbest]

theorem closeRound_agree (h : t.Alike u) {v : Work A} (ht : t.Tidy parentId fresh w)
    (hu : u.Tidy parentId fresh v) (hw : e.parent = loadParent w.registry parentId)
    (hv : e.parent = loadParent v.registry parentId) (parentScore : S)
    (proposed : List CellElite) :
    Agree (fun a b => a.1.Alike b.1 ∧ a.2 = b.2)
      ((closeRound config inj round parentId parentScore e proposed t).mapError Prod.fst)
      ((closeRound config inj round parentId parentScore e proposed u).mapError Prod.fst) := by
  have hchampion : champion t parentScore = champion u parentScore := by
    rw [champion, champion, h.bestScore, h.bestNodeId]
  have hresult : roundResult config round parentId parentScore e t =
      roundResult config round parentId parentScore e u := by
    have hnext := next_agree h ht hu hw hv parentScore
    rw [hchampion] at hnext
    simp only [roundResult, hchampion, h.outcomes, h.bestScore, hnext]
  rw [closeRound, closeRound, hresult]
  cases inj.draftVerdict (roundResult config round parentId parentScore e u) with
  | error error => rfl
  | ok verdict =>
      refine ⟨⟨?_, ?_⟩, ?_⟩
      · rw [(persistFlips_work t).2.1, (persistFlips_work u).2.1]
        exact h.work.failureMap
      · rw [(persistFlips_work t).2.2, (persistFlips_work u).2.2]
        exact h.work.archive
      · show ({ result := _, decided := t.decided, proposed := proposed } : RoundReport S) = _
        rw [h.decided]

variable [Zero S]

theorem decideNode_tidy {t' : Tally S A} {idx : Nat} {cand : Candidate} {ctx : Decision}
    (h : t.Tidy ctx.parentId fresh w) (hfresh : fresh ctx.node.nodeId)
    (hne : ctx.node.nodeId ≠ ctx.parentId)
    (hnode : t.work.registry.get ctx.node.nodeId = some ctx.node)
    (hrun : decideNode config inj idx cand ctx t = .ok t') : t'.Tidy ctx.parentId fresh w := by
  rw [decideNode] at hrun
  split at hrun
  · obtain rfl := Except.ok.inj hrun
    exact h.fail cand .errored
  · next decided _ =>
      have hnoted : ((t.noteFlips config.trainTaskIds ctx decided).note config ctx cand
          (withEvidence inj idx ctx decided)).Tidy ctx.parentId fresh w :=
        h.noteDecided idx cand ctx decided
      dsimp only at hrun
      split at hrun
      · split at hrun
        · cases hrun
        · obtain rfl := Except.ok.inj hrun
          refine hnoted.choose _ hfresh hne ?_
          show (t.noteFlips _ _ _).work.registry.get _ = _
          rw [noteFlips_registry]
          exact hnode
      · obtain rfl := Except.ok.inj hrun
        exact hnoted

theorem tryAll_tidy {t' : Tally S A} {idx : Nat} {cands : List Candidate}
    (h : t.Tidy parentId fresh w)
    (hfresh : ∀ idx cand node, inj.apply idx parentId cand round = .ok node →
      node.nodeId ≠ parentId ∧ fresh node.nodeId)
    (hrun : tryAll config inj round parentId e baseline idx cands t = .ok t') :
    t'.Tidy parentId fresh w := by
  induction cands generalizing idx t with
  | nil =>
      obtain rfl := Except.ok.inj hrun
      exact h
  | cons cand rest ih =>
      rw [tryAll] at hrun
      split at hrun
      · cases hrun
      · next v hv =>
          refine ih ?_ hrun
          rw [tryCandidate] at hv
          split at hv
          · obtain rfl := Except.ok.inj hv
            exact h.fail cand .rejectedAtManifest
          · obtain rfl := Except.ok.inj hv
            exact h.fail cand .errored
          · next node hnode =>
              obtain ⟨hne, hnew⟩ := hfresh idx cand node hnode
              split at hv
              · cases hv
              · next focusedTaskIds _ =>
                  have hregistered : (t.register node).Tidy
                      (decisionOf round parentId e baseline node focusedTaskIds).parentId fresh w :=
                    h.register hne
                  refine decideNode_tidy hregistered hnew hne ?_ hv
                  show (t.work.registry.set node.nodeId node).get node.nodeId = some node
                  exact OrderedDict.get_set_self ..

variable [One S] [Neg S]

omit [LT S] [DecidableLT S] [Zero S] in
theorem startTally_tidy (w : Work A) (archive : A) (outcomes : List (Outcome S)) :
    (startTally w archive outcomes).Tidy parentId fresh w where
  mapFile := rfl
  failureMap := .inl rfl
  parent := rfl
  best nodeId hbest := absurd hbest (by simp [startTally])

theorem finishRound_left {parentScore : S} {w' : Work A} {report : RoundReport S}
    (hfresh : ∀ idx cand node, inj.apply idx parentId cand round = .ok node →
      node.nodeId ≠ parentId ∧ fresh node.nodeId)
    (hrun : finishRound config inj round parentId parentScore w e = .ok (w', report)) :
    Left parentId fresh w w' report.result := by
  rw [finishRound] at hrun
  split at hrun
  · obtain ⟨rfl, rfl⟩ := Prod.mk.inj (Except.ok.inj hrun)
    exact ⟨rfl, fun _ h => h, .inl ⟨rfl, rfl⟩⟩
  · next baseline _ =>
      dsimp only at hrun
      split at hrun
      · cases hrun
      · next t ht => exact closeRound_left (tryAll_tidy (startTally_tidy ..) hfresh ht) hrun

/-- Two rounds that start alike end alike. -/
theorem finishRound_agree {v : Work A} (h : w.Alike v)
    (hw : e.parent = loadParent w.registry parentId)
    (hv : e.parent = loadParent v.registry parentId)
    (hfresh : ∀ idx cand node, inj.apply idx parentId cand round = .ok node →
      node.nodeId ≠ parentId) (parentScore : S) :
    Agree (fun a b => a.1.Alike b.1 ∧ a.2 = b.2)
      ((finishRound config inj round parentId parentScore w e).mapError Prod.fst)
      ((finishRound config inj round parentId parentScore v e).mapError Prod.fst) := by
  rw [finishRound, finishRound]
  cases e.baseline with
  | none => exact ⟨h, rfl⟩
  | some baseline =>
      have hdesign : designAll inj round w e = designAll inj round v e := by
        simp only [designAll, h.failureMap]
      dsimp only
      rw [hdesign, h.archive]
      generalize designAll inj round v e = design
      generalize recombineAll config inj parentId e.parent v.archive = recombination
      obtain ⟨designed, outcomes⟩ := design
      obtain ⟨recombined, failures, archive, proposed⟩ := recombination
      dsimp only
      have hstart : (startTally w archive (outcomes ++ failures)).Alike
          (startTally v archive (outcomes ++ failures)) :=
        ⟨⟨h.failureMap, rfl⟩, rfl, rfl, rfl, rfl, fun _ hbest => absurd hbest (by simp [startTally])⟩
      have hnew : ∀ idx cand node, inj.apply idx parentId cand round = .ok node →
          node.nodeId ≠ parentId ∧ (fun _ : Str => True) node.nodeId :=
        fun idx cand node happly => ⟨hfresh idx cand node happly, trivial⟩
      have hagree : Agree Tally.Alike
          (tryAll config inj round parentId e baseline 0 (designed ++ recombined)
            (startTally w archive (outcomes ++ failures)))
          (tryAll config inj round parentId e baseline 0 (designed ++ recombined)
            (startTally v archive (outcomes ++ failures))) :=
        tryAll_agree hstart 0 _
      cases ht : tryAll config inj round parentId e baseline 0 (designed ++ recombined)
          (startTally w archive (outcomes ++ failures)) with
      | error error =>
          cases hu : tryAll config inj round parentId e baseline 0 (designed ++ recombined)
              (startTally v archive (outcomes ++ failures)) with
          | error other =>
              rw [ht, hu] at hagree
              exact hagree
          | ok u =>
              rw [ht, hu] at hagree
              exact hagree.elim
      | ok t =>
          cases hu : tryAll config inj round parentId e baseline 0 (designed ++ recombined)
              (startTally v archive (outcomes ++ failures)) with
          | error other =>
              rw [ht, hu] at hagree
              exact hagree.elim
          | ok u =>
              rw [ht, hu] at hagree
              have htidy : t.Tidy parentId (fun _ => True) w :=
                tryAll_tidy (startTally_tidy ..) hnew ht
              have hutidy : u.Tidy parentId (fun _ => True) v :=
                tryAll_tidy (startTally_tidy ..) hnew hu
              exact closeRound_agree hagree htidy hutidy hw hv parentScore proposed

end Round

/-! ## Entering a round -/

section Enter

variable {config : RoundConfig S A F} {inj : Injected S} {round : Nat} {parentId : Str}
  {w v : Work A} {e : Entrance}

theorem diagnoseParent_agree (config : RoundConfig S A F) (inj : Injected S) (round : Nat)
    (parentId : Str) (h : w.Alike v) (parent : NodeRef) :
    (diagnoseParent config inj round parentId parent w).1.Alike
        (diagnoseParent config inj round parentId parent v).1 ∧
      (diagnoseParent config inj round parentId parent w).2 =
        (diagnoseParent config inj round parentId parent v).2 := by
  rw [diagnoseParent, diagnoseParent, h.failureMap]
  split
  · exact ⟨h, rfl⟩
  · split
    · exact ⟨h, rfl⟩
    · split
      · exact ⟨h, rfl⟩
      · exact ⟨⟨rfl, h.archive⟩, rfl⟩

/-- A diagnosis leaves the work, or has written the map with the parent in it. -/
theorem diagnoseParent_cases (config : RoundConfig S A F) (inj : Injected S) (round : Nat)
    (parentId : Str) (w : Work A) (parent : NodeRef) :
    (diagnoseParent config inj round parentId parent w).1 = w ∨
    ((diagnoseParent config inj round parentId parent w).1.registry = w.registry ∧
      (diagnoseParent config inj round parentId parent w).1.archive = w.archive ∧
      (diagnoseParent config inj round parentId parent w).1.mapFile =
        some (diagnoseParent config inj round parentId parent w).1.failureMap ∧
      parentId ∈
        (diagnoseParent config inj round parentId parent w).1.failureMap.diagnosedParents ∧
      (diagnoseParent config inj round parentId parent w).2 = true) := by
  rw [diagnoseParent]
  split
  · exact .inl rfl
  · split
    · exact .inl rfl
    · split
      · exact .inl rfl
      · exact .inr ⟨rfl, rfl, rfl, mem_sortedUnion.mpr (.inr List.mem_cons_self), rfl⟩

/-- A parent that was just diagnosed. -/
structure JustDiagnosed (parentId : Str) (w : Work A) (e : Entrance) : Prop where
  mapFile : w.mapFile = some w.failureMap
  mem : parentId ∈ w.failureMap.diagnosedParents
  diagnosed : e.diagnosed = true
  baseline : e.baseline.isSome = true

theorem enterRound_ok {w' : Work A} (h : enterRound config inj round parentId w = .ok (w', e)) :
    e.parent = loadParent w.registry parentId ∧ w'.registry = w.registry ∧
      w'.archive = w.archive ∧ (w' = w ∨ JustDiagnosed parentId w' e) := by
  rw [enterRound] at h
  cases hprecheck : inj.precheck with
  | error error =>
      rw [hprecheck] at h
      cases h
  | ok _ =>
      cases hanchor : inj.selectAnchor with
      | error error =>
          rw [hprecheck, hanchor] at h
          cases h
      | ok anchor =>
          rw [hprecheck, hanchor] at h
          dsimp only [bind, Except.bind] at h
          split at h
          · obtain ⟨rfl, rfl⟩ := Prod.mk.inj (Except.ok.inj h)
            exact ⟨rfl, rfl, rfl, .inl rfl⟩
          · next baseline _ =>
              obtain ⟨rfl, rfl⟩ := Prod.mk.inj (Except.ok.inj h)
              have hcases := diagnoseParent_cases config inj round parentId w
                (loadParent w.registry parentId)
              rcases hcases with hsame | ⟨hregistry, harchive, hfile, hmem, hdiagnosed⟩
              · exact ⟨rfl, by rw [hsame], by rw [hsame], .inl hsame⟩
              · exact ⟨rfl, hregistry, harchive, .inr ⟨hfile, hmem, hdiagnosed, rfl⟩⟩

theorem enterRound_agree (h : w.Alike v)
    (hparent : loadParent w.registry parentId = loadParent v.registry parentId) :
    Agree (fun a b => a.1.Alike b.1 ∧ a.2 = b.2) (enterRound config inj round parentId w)
      (enterRound config inj round parentId v) := by
  rw [enterRound, enterRound, hparent]
  cases inj.precheck with
  | error error => rfl
  | ok _ =>
      cases inj.selectAnchor with
      | error error => rfl
      | ok anchor =>
          dsimp only [bind, Except.bind]
          split
          · exact ⟨h, rfl⟩
          · obtain ⟨halike, hflag⟩ := diagnoseParent_agree config inj round parentId h
              (loadParent v.registry parentId)
            refine ⟨halike, ?_⟩
            show ({ parent := _, anchor := anchor, baseline := _, diagnosed := _ } : Entrance) = _
            rw [hflag]

/-- Entering again after the diagnosis finds the same and changes nothing. -/
theorem enterRound_again {w' : Work A} (h : enterRound config inj round parentId w = .ok (w', e))
    (hjust : JustDiagnosed parentId w' e) (hmap : v.failureMap = w'.failureMap)
    (hparent : loadParent w.registry parentId = loadParent v.registry parentId) :
    enterRound config inj round parentId v = .ok (v, e) := by
  rw [enterRound] at h ⊢
  cases hprecheck : inj.precheck with
  | error error =>
      rw [hprecheck] at h
      cases h
  | ok _ =>
      cases hanchor : inj.selectAnchor with
      | error error =>
          rw [hprecheck, hanchor] at h
          cases h
      | ok anchor =>
          rw [hprecheck, hanchor] at h
          dsimp only [bind, Except.bind] at h ⊢
          rw [← hparent]
          split at h
          · obtain ⟨rfl, rfl⟩ := Prod.mk.inj (Except.ok.inj h)
            exact absurd hjust.baseline (by simp)
          · next baseline hbaseline =>
              obtain ⟨rfl, rfl⟩ := Prod.mk.inj (Except.ok.inj h)
              have hmem : parentId ∈ v.failureMap.diagnosedParents := by
                rw [hmap]
                exact hjust.mem
              have hagain : diagnoseParent config inj round parentId
                  (loadParent w.registry parentId) v = (v, true) := by
                rw [diagnoseParent, if_pos hmem]
              have hflag : (diagnoseParent config inj round parentId
                  (loadParent w.registry parentId) w).2 = true := hjust.diagnosed
              rw [hagain, hflag]
              rfl

end Enter

/-! ## Between two rounds -/

section Loop

variable {config : LoopConfig S A F}

/-- The nodes that a replay registers. -/
def journalRegistry (config : LoopConfig S A F) (journal : List (Checkpoint S)) :
    OrderedDict Str NodeRef :=
  journal.foldl replayNode (newProcess config ({} : Disk S F)).registry

theorem registry_foldl (p : Process S A) (journal : List (Checkpoint S)) :
    (journal.foldl replay p).registry = journal.foldl replayNode p.registry := by
  induction journal generalizing p with
  | nil => rfl
  | cons rec rest ih => exact ih (replay p rec)

theorem archive_foldl (p : Process S A) (journal : List (Checkpoint S)) :
    (journal.foldl replay p).archive = p.archive := by
  induction journal generalizing p with
  | nil => rfl
  | cons rec rest ih => exact ih (replay p rec)

theorem failureMap_foldl (p : Process S A) (journal : List (Checkpoint S)) :
    (journal.foldl replay p).failureMap = p.failureMap := by
  induction journal generalizing p with
  | nil => rfl
  | cons rec rest ih => exact ih (replay p rec)

theorem registry_resume (disk : Disk S F) :
    (resume config disk).registry = journalRegistry config disk.journal :=
  registry_foldl (newProcess config disk) disk.journal

theorem archive_resume (disk : Disk S F) :
    (resume config disk).archive = config.archive.load disk.archiveFile :=
  archive_foldl (newProcess config disk) disk.journal

theorem failureMap_resume {disk : Disk S F} (h : disk.journal ≠ []) :
    (resume config disk).failureMap = disk.mapFile.getD config.seedFailureMap := by
  show (if disk.journal.isEmpty = true then _ else disk.mapFile.getD _) = _
  rw [if_neg (by simpa using h), failureMap_foldl]
  rfl

/-- What is on the disk is what the process holds. -/
structure Settled (config : LoopConfig S A F) (s : LoopState S A F) : Prop where
  replayed : s.Replayed config
  ending : s.process.ending = (s.process.term.shouldStop config.limits).map .stopped
  failureMap : s.disk.mapFile.getD config.seedFailureMap = s.process.failureMap
  archive : config.archive.load s.disk.archiveFile = s.process.archive
  parent : loadParent s.process.registry s.process.parentId =
    loadParent (journalRegistry config s.disk.journal) s.process.parentId

theorem settled_resume {disk : Disk S F} (h : disk.journal ≠ []) :
    Settled config { disk := disk, process := resume config disk } where
  replayed := control_resume disk
  ending := rfl
  failureMap := (failureMap_resume h).symm
  archive := (archive_resume disk).symm
  parent := by rw [registry_resume]

theorem settled_new : Settled config (newLoop config) where
  replayed := control_resume {}
  ending := rfl
  failureMap := rfl
  archive := rfl
  parent := rfl

/-- The parent of the next round is the one that a replay of the record finds. -/
theorem parent_after {journal : List (Checkpoint S)} {parentId : Str} {w w' : Work A}
    {r : RoundResult S}
    (hleft : Left parentId (fun nodeId => (journalRegistry config journal).get nodeId = none) w w' r)
    (hparent : loadParent w.registry parentId = loadParent (journalRegistry config journal) parentId) :
    loadParent w'.registry r.nextParentId =
      loadParent (journalRegistry config (journal ++ [r.checkpoint])) r.nextParentId := by
  rw [journalRegistry, List.foldl_concat]
  show _ = loadParent (replayNode (journalRegistry config journal) r.checkpoint) _
  rcases hleft.next with ⟨hnext, hget⟩ | ⟨hfresh, hne, node, hget, hid, hsha⟩
  · have hstay : replayNode (journalRegistry config journal) r.checkpoint =
        journalRegistry config journal := by
      rw [replayNode]
      split
      · rfl
      · rw [dif_pos (.inr (.inl (hnext.trans hleft.parentId_eq.symm)))]
    rw [hstay, hnext, ← hparent, loadParent, hget, loadParent]
  · rw [loadParent, hget, Option.getD_some]
    by_cases hunknown : node.gitCommitSha = "unknown".toList
    · have hnone : r.checkpoint.nextParentSha = none := by
        show r.nextParentSha = none
        rw [hsha, shaOrNone, if_pos (.inr hunknown)]
      rw [replayNode, hnone, loadParent, hfresh, Option.getD_none, ← hid]
      obtain ⟨nodeId, sha, hsha'⟩ := node
      cases hunknown
      rfl
    · have hsome : r.checkpoint.nextParentSha = some node.gitCommitSha := by
        show r.nextParentSha = some node.gitCommitSha
        rw [hsha, shaOrNone, if_neg (not_or.mpr ⟨node.sha_ne, hunknown⟩)]
      have hnew : ¬ (node.gitCommitSha = [] ∨ r.checkpoint.nextParentId = r.checkpoint.parentId ∨
          ((journalRegistry config journal).get r.checkpoint.nextParentId).isSome = true) := by
        rintro (hempty | hsame | hknown)
        · exact node.sha_ne hempty
        · exact hne (hsame.trans hleft.parentId_eq)
        · rw [show r.checkpoint.nextParentId = r.nextParentId from rfl, hfresh] at hknown
          cases hknown
      rw [replayNode, hsome]
      dsimp only
      rw [dif_neg hnew, loadParent]
      show node = ((OrderedDict.set _ r.nextParentId _).get r.nextParentId).getD _
      rw [OrderedDict.get_set_self, Option.getD_some]
      obtain ⟨nodeId, sha, hsha'⟩ := node
      cases hid
      rfl

variable {inj : Injected S}

/-- No node that is applied has the id of the parent, or of one that the journal knows. -/
def NewNodes (config : LoopConfig S A F) (inj : Injected S) (s : LoopState S A F) : Prop :=
  ∀ idx cand node, inj.apply idx s.process.parentId cand (s.process.roundIndex + 1) = .ok node →
    node.nodeId ≠ s.process.parentId ∧
      (journalRegistry config s.disk.journal).get node.nodeId = none

/-! ## The simulation -/

/-- The process raised. -/
def LoopState.Raised (s : LoopState S A F) : Prop := ∃ error, s.process.ending = some (.raised error)

/-- The failure maps are the same, or the first one is the second after the diagnosis of the
next round. -/
def MapAlike (config : LoopConfig S A F) (inj : Injected S) (s t : LoopState S A F) : Prop :=
  s.process.failureMap = t.process.failureMap ∨
  ∃ w e, enterRound config.toRoundConfig inj (t.process.roundIndex + 1) t.process.parentId
      (t.process.work t.disk) = .ok (w, e) ∧ JustDiagnosed t.process.parentId w e ∧
    s.process.failureMap = w.failureMap

/-- Two evolutions that will go on alike. -/
structure Follows (config : LoopConfig S A F) (inj : Injected S) (s t : LoopState S A F) :
    Prop where
  control : s.process.control = t.process.control
  ending : s.process.ending = t.process.ending
  journal : s.disk.journal = t.disk.journal
  settled : ¬ s.Raised → Settled config s ∧ Settled config t
  archive : ¬ s.Raised → s.process.archive = t.process.archive
  failureMap : ¬ s.Raised → MapAlike config inj s t

variable {s t : LoopState S A F}

theorem Follows.loadParent_eq (h : Follows config inj s t) (hgoing : ¬ s.Raised) :
    loadParent s.process.registry s.process.parentId =
      loadParent t.process.registry t.process.parentId := by
  have hid : s.process.parentId = t.process.parentId := congrArg Control.parentId h.control
  obtain ⟨hs, ht⟩ := h.settled hgoing
  rw [hs.parent, ht.parent, h.journal, hid]

/-- Entering the next round finds the same. -/
theorem Follows.enter (h : Follows config inj s t) (hgoing : ¬ s.Raised) :
    Agree (fun a b => a.1.Alike b.1 ∧ a.2 = b.2)
      (enterRound config.toRoundConfig inj (s.process.roundIndex + 1) s.process.parentId
        (s.process.work s.disk))
      (enterRound config.toRoundConfig inj (t.process.roundIndex + 1) t.process.parentId
        (t.process.work t.disk)) := by
  have hid : s.process.parentId = t.process.parentId := congrArg Control.parentId h.control
  have hround : s.process.roundIndex = t.process.roundIndex := congrArg Control.roundIndex h.control
  have hparent := h.loadParent_eq hgoing
  rw [hid] at hparent
  rw [hid, hround]
  rcases h.failureMap hgoing with hsame | ⟨w, e, hw, hjust, hmap⟩
  · exact enterRound_agree ⟨hsame, h.archive hgoing⟩ hparent
  · have hs : enterRound config.toRoundConfig inj (t.process.roundIndex + 1) t.process.parentId
        (s.process.work s.disk) = .ok (s.process.work s.disk, e) :=
      enterRound_again hw hjust hmap hparent.symm
    rw [hs, hw]
    refine ⟨⟨hmap, ?_⟩, rfl⟩
    rw [(enterRound_ok hw).2.2.1]
    exact h.archive hgoing

/-- A process that raises follows the other one. -/
theorem Follows.abort (h : Follows config inj s t) {failure failure' : Str × Option FailureMap}
    (hsame : failure.1 = failure'.1) : Follows config inj (s.abort failure) (t.abort failure') := by
  have hraised : (s.abort failure).Raised := ⟨failure.1, rfl⟩
  refine ⟨h.control, ?_, h.journal, fun hgoing => absurd hraised hgoing,
    fun hgoing => absurd hraised hgoing, fun hgoing => absurd hraised hgoing⟩
  show some (Ending.raised failure.1) = some (Ending.raised failure'.1)
  rw [hsame]

theorem newNodes_of_follows (h : Follows config inj s t) (hnew : NewNodes config inj s) :
    NewNodes config inj t := by
  have hid : s.process.parentId = t.process.parentId := congrArg Control.parentId h.control
  have hround : s.process.roundIndex = t.process.roundIndex := congrArg Control.roundIndex h.control
  rw [NewNodes, ← hid, ← hround, ← h.journal]
  exact hnew

theorem follows_new : Follows config inj (newLoop config) (newLoop config) where
  control := rfl
  ending := rfl
  journal := rfl
  settled _ := ⟨settled_new, settled_new⟩
  archive _ := rfl
  failureMap _ := .inl rfl

theorem not_raised_of_none (h : s.process.ending = none) : ¬ s.Raised := by
  rintro ⟨error, hraised⟩
  rw [h] at hraised
  cases hraised

/-- A resumed process follows. -/
theorem Follows.resumed (h : Follows config inj s t) (hgoing : ¬ s.Raised) {disk : Disk S F}
    (hjournal : disk.journal = s.disk.journal) (hne : s.disk.journal ≠ [])
    (harchive : disk.archiveFile = s.disk.archiveFile)
    (hmap : ∀ s' : LoopState S A F, s'.process.failureMap = disk.mapFile.getD config.seedFailureMap →
      MapAlike config inj s' t) :
    Follows config inj { disk := disk, process := resume config disk } t := by
  obtain ⟨hs, ht⟩ := h.settled hgoing
  have hne' : disk.journal ≠ [] := hjournal ▸ hne
  have hcontrol : (resume config disk).control = s.process.control := by
    rw [control_resume, hjournal]
    exact hs.replayed.symm
  have hterm : (resume config disk).term = s.process.term := congrArg Control.term hcontrol
  refine ⟨hcontrol.trans h.control, ?_, hjournal.trans h.journal, fun _ => ⟨settled_resume hne', ht⟩,
    fun _ => ?_, fun _ => hmap _ (failureMap_resume hne')⟩
  · rw [← h.ending, hs.ending, ← hterm]
    rfl
  · show (resume config disk).archive = _
    rw [archive_resume, harchive, hs.archive]
    exact h.archive hgoing

variable [Preorder S] [DecidableLT S] [Zero S] [One S] [Neg S]

theorem runRound_left {s : LoopState S A F} (h : Settled config s) (hnew : NewNodes config inj s)
    {w : Work A} {report : RoundReport S} (hrun : runRound config inj s = .ok (w, report)) :
    w.mapFile.getD config.seedFailureMap = w.failureMap ∧
      loadParent w.registry report.result.nextParentId =
        loadParent (journalRegistry config (s.disk.journal ++ [report.result.checkpoint]))
          report.result.nextParentId ∧
      (report.result.promoted = false → report.result.nextParentTrain = none) := by
  rw [runRound] at hrun
  split at hrun
  · cases hrun
  · next v e hv =>
      obtain ⟨_, hregistry, _, hv⟩ := enterRound_ok hv
      have hleft : Left s.process.parentId
          (fun nodeId => (journalRegistry config s.disk.journal).get nodeId = none) v w
          report.result :=
        finishRound_left hnew hrun
      refine ⟨hleft.failureMap _ ?_, parent_after hleft ?_, finishRound_unpromoted hrun⟩
      · rcases hv with rfl | hjust
        · exact h.failureMap
        · rw [hjust.mapFile, Option.getD_some]
      · rw [hregistry]
        exact h.parent

/-- A whole round is settled again. -/
theorem settled_round (hload : ∀ archive, config.archive.load (some (config.archive.save archive)) =
    archive) {s : LoopState S A F} (h : Settled config s) (hnew : NewNodes config inj s) {w : Work A}
    {report : RoundReport S} (hrun : runRound config inj s = .ok (w, report)) :
    Settled config
      { disk := saved config s w report.result
        process := s.process.advance config w report.result } := by
  obtain ⟨hmap, hparent, hunpromoted⟩ := runRound_left h hnew hrun
  refine ⟨?_, rfl, hmap, hload w.archive, hparent⟩
  rw [LoopState.Replayed]
  show _ = List.foldl replayControl _ (s.disk.journal ++ [report.result.checkpoint])
  rw [control_advance hunpromoted, List.foldl_concat, ← h.replayed]

theorem Follows.round (h : Follows config inj s t) (hgoing : ¬ s.Raised)
    (hnew : NewNodes config inj s) :
    Agree (fun a b => a.1.Alike b.1 ∧ a.2 = b.2)
      ((runRound config inj s).mapError Prod.fst) ((runRound config inj t).mapError Prod.fst) := by
  have hid : s.process.parentId = t.process.parentId := congrArg Control.parentId h.control
  have hround : s.process.roundIndex = t.process.roundIndex := congrArg Control.roundIndex h.control
  have hscore : s.process.parentScore = t.process.parentScore :=
    congrArg Control.parentScore h.control
  have henter := h.enter hgoing
  rw [runRound, runRound]
  cases hs : enterRound config.toRoundConfig inj (s.process.roundIndex + 1) s.process.parentId
      (s.process.work s.disk) with
  | error error =>
      cases ht : enterRound config.toRoundConfig inj (t.process.roundIndex + 1) t.process.parentId
          (t.process.work t.disk) with
      | error other =>
          rw [hs, ht] at henter
          exact henter
      | ok b =>
          rw [hs, ht] at henter
          exact henter.elim
  | ok a =>
      cases ht : enterRound config.toRoundConfig inj (t.process.roundIndex + 1) t.process.parentId
          (t.process.work t.disk) with
      | error other =>
          rw [hs, ht] at henter
          exact henter.elim
      | ok b =>
          rw [hs, ht] at henter
          obtain ⟨w, e⟩ := a
          obtain ⟨v, e'⟩ := b
          obtain ⟨halike, rfl⟩ := henter
          obtain ⟨hw, hregistry, _⟩ := enterRound_ok hs
          obtain ⟨hv, hregistry', _⟩ := enterRound_ok ht
          dsimp only
          rw [← hround, ← hid, ← hscore]
          rw [← hid] at hv
          refine finishRound_agree halike ?_ ?_ (fun idx cand node happly =>
            (hnew idx cand node happly).1) s.process.parentScore
          · rw [hregistry]
            exact hw
          · rw [hregistry']
            exact hv


/-- A crash after the journal record of a round and before the first evaluation of the next
one, with the archive saved. -/
def InWindow (config : LoopConfig S A F) (inj : Injected S) (s : LoopState S A F) :
    LoopStep S → Prop
  | .round j => j = inj ∧ NewNodes config inj s
  | .cutRound j => j = inj ∧ NewNodes config inj s ∧
      ∀ w report, runRound config inj s = .ok (w, report) →
        config.archive.load s.disk.archiveFile = w.archive
  | .cutEntrance j => j = inj ∧ s.disk.journal ≠ [] ∧
      ∃ w e, enterRound config.toRoundConfig inj (s.process.roundIndex + 1) s.process.parentId
        (s.process.work s.disk) = .ok (w, e)
  | .resume => s.disk.journal ≠ [] ∧ ¬ s.Raised

/-- The step of the evolution that is not killed. -/
def uninterrupted : LoopStep S → Option (LoopStep S)
  | .round inj | .cutRound inj => some (.round inj)
  | .cutEntrance _ | .resume => none

theorem Follows.silent (h : Follows config inj s t) {i : LoopStep S} (hi : InWindow config inj s i)
    (hplain : uninterrupted i = none) :
    (loopMachine config).out s i = none ∧ Follows config inj ((loopMachine config).next s i) t := by
  rw [Machine.next, Machine.out]
  cases i with
  | round j => cases hplain
  | cutRound j => cases hplain
  | resume =>
      obtain ⟨hne, hgoing⟩ := hi
      refine ⟨rfl, h.resumed hgoing rfl hne rfl fun s' hs' => ?_⟩
      rw [(h.settled hgoing).1.failureMap] at hs'
      rw [MapAlike, hs']
      exact h.failureMap hgoing
  | cutEntrance j =>
      obtain ⟨rfl, hne, w, e, henter⟩ := hi
      simp only [loopMachine]
      split
      · exact ⟨rfl, h⟩
      · next hending =>
          have hgoing : ¬ s.Raised := not_raised_of_none (by simpa using hending)
          rw [henter]
          refine ⟨rfl, h.resumed hgoing rfl hne rfl fun s' hs' => ?_⟩
          have hsettled := (h.settled hgoing).1
          rcases (enterRound_ok henter).2.2.2 with rfl | hjust
          · rw [show (s.process.work s.disk).mapFile = s.disk.mapFile from rfl,
              hsettled.failureMap] at hs'
            rw [MapAlike, hs']
            exact h.failureMap hgoing
          · rw [hjust.mapFile, Option.getD_some] at hs'
            have hagree := h.enter hgoing
            rw [henter] at hagree
            cases ht : enterRound config.toRoundConfig j (t.process.roundIndex + 1)
                t.process.parentId (t.process.work t.disk) with
            | error error =>
                rw [ht] at hagree
                exact hagree.elim
            | ok b =>
                rw [ht] at hagree
                obtain ⟨v, e'⟩ := b
                obtain ⟨halike, rfl⟩ := hagree
                rcases (enterRound_ok ht).2.2.2 with hsame | hjust'
                · exact .inl (hs'.trans (halike.failureMap.trans (congrArg Work.failureMap hsame)))
                · exact .inr ⟨v, e, ht, hjust', hs'.trans halike.failureMap⟩

/-- The journal record of the same round is the same for both. -/
theorem Follows.afterRound (h : Follows config inj s t) {w v : Work A} (halike : w.Alike v)
    {report : RoundReport S} (hgoing : ¬ s.Raised) (hnew : NewNodes config inj s)
    (hs : runRound config inj s = .ok (w, report)) {process : Process S A} {archiveFile : Option F}
    (hsettled : Settled config
      { disk := { recorded s w report.result with archiveFile := archiveFile }, process := process })
    (harchive : process.archive = w.archive)
    (htSettled : Settled config
      { disk := saved config t v report.result
        process := t.process.advance config v report.result }) :
    Follows config inj
      { disk := { recorded s w report.result with archiveFile := archiveFile }, process := process }
      { disk := saved config t v report.result
        process := t.process.advance config v report.result } := by
  have hcontrol : process.control = (t.process.advance config v report.result).control := by
    have hps : process.control =
        (s.disk.journal ++ [report.result.checkpoint]).foldl replayControl (startControl config) :=
      hsettled.replayed
    have hpt : (t.process.advance config v report.result).control =
        (t.disk.journal ++ [report.result.checkpoint]).foldl replayControl (startControl config) :=
      htSettled.replayed
    rw [hps, hpt, h.journal]
  have hterm : process.term = (t.process.advance config v report.result).term :=
    congrArg Control.term hcontrol
  refine ⟨hcontrol, ?_, ?_, fun _ => ⟨hsettled, htSettled⟩, fun _ => ?_, fun _ => .inl ?_⟩
  · have hs' : process.ending = (process.term.shouldStop config.limits).map .stopped :=
      hsettled.ending
    have ht' := htSettled.ending
    show process.ending = _
    rw [hs', hterm]
    exact ht'.symm
  · show s.disk.journal ++ _ = t.disk.journal ++ _
    rw [h.journal]
  · show process.archive = v.archive
    rw [harchive, halike.archive]
  · have hs' : w.mapFile.getD config.seedFailureMap = process.failureMap := hsettled.failureMap
    show process.failureMap = v.failureMap
    rw [← hs', (runRound_left (h.settled hgoing).1 hnew hs).1, halike.failureMap]

theorem Follows.matched
    (hload : ∀ archive, config.archive.load (some (config.archive.save archive)) = archive)
    (h : Follows config inj s t) {i j : LoopStep S} (hi : InWindow config inj s i)
    (hplain : uninterrupted i = some j) :
    (loopMachine config).out s i = (loopMachine config).out t j ∧
      Follows config inj ((loopMachine config).next s i) ((loopMachine config).next t j) := by
  have hround : ∀ hending : s.process.ending = none, ∀ hnew : NewNodes config inj s,
      (∃ failure failure', runRound config inj s = .error failure ∧
        runRound config inj t = .error failure' ∧ failure.1 = failure'.1) ∨
      ∃ w v report, runRound config inj s = .ok (w, report) ∧ runRound config inj t = .ok (v, report) ∧
        w.Alike v := by
    intro hending hnew
    have hagree := h.round (not_raised_of_none hending) hnew
    cases hs : runRound config inj s with
    | error failure =>
        cases ht : runRound config inj t with
        | error failure' =>
            rw [hs, ht] at hagree
            exact .inl ⟨failure, failure', rfl, rfl, hagree⟩
        | ok b =>
            rw [hs, ht] at hagree
            exact hagree.elim
    | ok a =>
        cases ht : runRound config inj t with
        | error failure' =>
            rw [hs, ht] at hagree
            exact hagree.elim
        | ok b =>
            rw [hs, ht] at hagree
            obtain ⟨w, report⟩ := a
            obtain ⟨v, report'⟩ := b
            obtain ⟨halike, rfl⟩ := hagree
            exact .inr ⟨w, v, report, rfl, rfl, halike⟩
  rw [Machine.next, Machine.next, Machine.out, Machine.out]
  cases i with
  | cutEntrance k => cases hplain
  | resume => cases hplain
  | round k =>
      obtain ⟨rfl, hnew⟩ := hi
      obtain rfl := Option.some.inj hplain
      simp only [loopMachine]
      rw [← h.ending]
      split
      · exact ⟨rfl, h⟩
      · next hending =>
          have hnone : s.process.ending = none := by simpa using hending
          have hgoing := not_raised_of_none hnone
          rcases hround hnone hnew with ⟨failure, failure', hs, ht, hsame⟩ | ⟨w, v, report, hs, ht, halike⟩
          · rw [hs, ht]
            exact ⟨rfl, h.abort hsame⟩
          · rw [hs, ht]
            have hsettled := settled_round hload (h.settled hgoing).1 hnew hs
            have htSettled := settled_round hload (h.settled hgoing).2 (newNodes_of_follows h hnew) ht
            exact ⟨rfl, h.afterRound halike hgoing hnew hs hsettled rfl htSettled⟩
  | cutRound k =>
      obtain ⟨rfl, hnew, hsaved⟩ := hi
      obtain rfl := Option.some.inj hplain
      simp only [loopMachine]
      rw [← h.ending]
      split
      · exact ⟨rfl, h⟩
      · next hending =>
          have hnone : s.process.ending = none := by simpa using hending
          have hgoing := not_raised_of_none hnone
          rcases hround hnone hnew with ⟨failure, failure', hs, ht, hsame⟩ | ⟨w, v, report, hs, ht, halike⟩
          · rw [hs, ht]
            exact ⟨rfl, h.abort hsame⟩
          · rw [hs, ht]
            have htSettled := settled_round hload (h.settled hgoing).2 (newNodes_of_follows h hnew) ht
            have hne : s.disk.journal ++ [report.result.checkpoint] ≠ [] := by simp
            refine ⟨rfl, h.afterRound halike hgoing hnew hs (settled_resume hne) ?_ htSettled⟩
            rw [archive_resume]
            exact hsaved w report hs

/-- An evolution that is killed in the window and resumed reports the same rounds as the one
that is not killed, and ends as it does. -/
theorem resumed_follows
    (hload : ∀ archive, config.archive.load (some (config.archive.save archive)) = archive)
    {steps : List (LoopStep S)}
    (hwindow : (loopMachine config).Along (InWindow config inj) (newLoop config) steps) :
    ((loopMachine config).outs (newLoop config) steps).reduceOption =
        ((loopMachine config).outs (newLoop config) (steps.filterMap uninterrupted)).reduceOption ∧
      Follows config inj ((loopMachine config).run (newLoop config) steps)
        ((loopMachine config).run (newLoop config) (steps.filterMap uninterrupted)) :=
  Machine.outs_of_stutter (fun _ _ _ _ h hi hplain => h.matched hload hi hplain)
    (fun _ _ _ h hi hplain => h.silent hi hplain) follows_new hwindow

end Loop

/-! ## With the archive of elites -/

def gsmeOps (lower : Str → Str) (limit : Int) (vanillaTrainMean : ℚ) :
    ArchiveOps ℚ GsmeArchive Value where
  eligible archive parentId := .ok (archive.eligibleElites parentId limit)
  recordPairing := GsmeArchive.recordPairing
  consider archive parentId node cand o round :=
    archive.consider lower
      { parentId := parentId
        nodeId := node.nodeId
        gitCommitSha := node.gitCommitSha
        cand := cand
        outcome :=
          { nodeId := node.nodeId
            status := o.status
            score := o.score
            confirmEvals := o.confirmEvals
            paired := o.paired
            verdict := o.verdict }
        vanillaTrainMean := vanillaTrainMean
        roundIndex := round }
  save := GsmeArchive.toDict
  load := GsmeArchive.load

/-- An evolution that is killed after journal records, with the archive saved, and resumed
each time, reports the rounds of the evolution that is not killed: the same parents, commits,
scores and proposals; and it stops for the same reason. -/
theorem resuming_changes_nothing (lower : Str → Str) (limit : Int)
    (config : LoopConfig ℚ GsmeArchive Value)
    (harchive : config.archive = gsmeOps lower limit config.vanillaTrainMean) (inj : Injected ℚ)
    {steps : List (LoopStep ℚ)}
    (hwindow : (loopMachine config).Along (InWindow config inj) (newLoop config) steps) :
    let plain := steps.filterMap uninterrupted
    let last := (loopMachine config).run (newLoop config) steps
    let lastPlain := (loopMachine config).run (newLoop config) plain
    ((loopMachine config).outs (newLoop config) steps).reduceOption =
        ((loopMachine config).outs (newLoop config) plain).reduceOption ∧
      last.process.ending = lastPlain.process.ending ∧
      last.process.parentId = lastPlain.process.parentId ∧
      last.process.parentScore = lastPlain.process.parentScore := by
  have hload : ∀ archive, config.archive.load (some (config.archive.save archive)) = archive := by
    rw [harchive]
    exact GsmeArchive.load_toDict
  obtain ⟨hreports, hfollows⟩ := resumed_follows hload hwindow
  exact ⟨hreports, hfollows.ending, congrArg Control.parentId hfollows.control,
    congrArg Control.parentScore hfollows.control⟩

/-! ## Two crashes -/

def elitesConfig : LoopConfig ℚ GsmeArchive Value where
  vanillaTrainMean := 0
  trainTaskIds := ["t".toList]
  mergeFailureMaps _ roundMap := .ok roundMap
  archive := gsmeOps asciiLower 1 0
  rootNodeId := "v0".toList

/-- The first round has two candidates and promotes both, the second one with the better
score and without confirm evaluations; the later rounds have none. -/
def twoPromotions : Injected ℚ where
  precheck := .ok ()
  selectAnchor := .ok { taskIds := ["t".toList], sigmaScreen := 1, cullThreshold := 1 }
  forRound _ _ _ := .ok { evals := ∅, mean := 0, label := "vanilla".toList }
  diagnose _ _ := .ok {}
  design round _ _ := .ok
    (if round = 1 then
      [.bench { why := "tool_clarity".toList, files := ["a.py".toList] },
        .bench { why := "budget_awareness".toList, files := ["b.md".toList] }]
    else [])
  preflight _ _ _ := .ok true
  recombine _ _ _ := .ok none
  apply idx _ _ round :=
    if round = 1 then
      .ok { nodeId := if idx = 0 then "v1".toList else "v2".toList, gitCommitSha := "c".toList }
    else .error (.other "no commit".toList)
  focusedSource _ _ := .ok []
  decide idx _ := .ok
    { status := .promotedToBaseline
      score := if idx = 0 then 1 / 2 else 3 / 4
      confirmEvals := if idx = 0 then
          (∅ : Evals).set "t".toList (halfPassed "t".toList)
        else ∅
      verdict := .accepted }
  evidence _ _ _ := .ok ()
  onPromote _ _ _ := .ok ()
  draftVerdict _ := .ok none

/-- The elites that are proposed in each round. -/
def proposals (reports : List (Option (RoundReport ℚ))) : List (List Str) :=
  reports.reduceOption.map fun report => report.proposed.map CellElite.nodeId

/-- A crash between the journal record and the saving of the archive loses the elite of the
round: the next round has nothing to recombine. -/
theorem cutRound_loses_elite :
    proposals ((loopMachine elitesConfig).outs (newLoop elitesConfig)
        [.round twoPromotions, .round twoPromotions]) = [[], ["v1".toList]] ∧
    proposals ((loopMachine elitesConfig).outs (newLoop elitesConfig)
        [.cutRound twoPromotions, .round twoPromotions]) = [[], []] := by
  constructor
  · decide +kernel
  · decide +kernel

/-- Two rounds; the evolution is killed after the first one was saved, and again after the
next diagnosis. -/
def savedCrashes : List (LoopStep ℚ) :=
  [.round twoPromotions, .resume, .cutEntrance twoPromotions, .round twoPromotions]

theorem savedCrashes_lose_nothing :
    proposals ((loopMachine elitesConfig).outs (newLoop elitesConfig) savedCrashes) =
      [[], ["v1".toList]] := by
  have hfirst : NewNodes elitesConfig twoPromotions (newLoop elitesConfig) := by
    intro idx cand node hnode
    have hid : node.nodeId = "v1".toList ∨ node.nodeId = "v2".toList := by
      obtain rfl := Except.ok.inj hnode
      by_cases hidx : idx = 0
      · simp [hidx]
      · simp [hidx]
    refine ⟨?_, rfl⟩
    rcases hid with hid | hid
    · rw [hid]
      exact (by decide : "v1".toList ≠ "v0".toList)
    · rw [hid]
      exact (by decide : "v2".toList ≠ "v0".toList)
  have hlater : ∀ s : LoopState ℚ GsmeArchive Value, s.process.roundIndex = 1 →
      NewNodes elitesConfig twoPromotions s := by
    intro s hround idx cand node hnode
    rw [hround] at hnode
    cases hnode
  have hwindow : (loopMachine elitesConfig).Along (InWindow elitesConfig twoPromotions)
      (newLoop elitesConfig) savedCrashes := by
    refine ⟨⟨rfl, hfirst⟩, ⟨?_, ?_⟩, ⟨rfl, ?_, _, _, rfl⟩, ⟨rfl, hlater _ ?_⟩, trivial⟩
    · exact List.ne_nil_of_length_pos (by decide +kernel)
    · exact not_raised_of_none (by decide +kernel)
    · exact List.ne_nil_of_length_pos (by decide +kernel)
    · decide +kernel
  have hreports := (resuming_changes_nothing asciiLower 1 elitesConfig rfl twoPromotions hwindow).1
  have hplain : proposals ((loopMachine elitesConfig).outs (newLoop elitesConfig)
      (savedCrashes.filterMap uninterrupted)) = [[], ["v1".toList]] := by
    decide +kernel
  rw [proposals, hreports]
  exact hplain

end Evolver
end CodeCub

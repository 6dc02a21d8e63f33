import CodeCub.Pico.Lifecycle

/-!
# The order of follow-up requests

Requests wait in a line with two doors.  The head of the queue becomes a turn; a turn that
runs also takes what is in its mailbox, past the queue; and what it leaves there goes to
the end of the queue.  `Backlog` is this much of a lane.  Two requests that wait in the same
place leave in their order, whichever door they leave by.  Two that wait in different
places may not: a request that fell back to the queue is an ordinary turn, and a later one
that the running turn drains passes it.
-/

namespace CodeCub
namespace Pico

/-- `coming` is the turn that has not reached the runner yet, and `lost` are those that
ended before they did. -/
structure Backlog (α : Type) where
  queue : List α
  mailbox : List α
  coming : Option α
  handed : List α
  lost : List α

namespace Backlog

variable {α : Type}

def all (backlog : Backlog α) : List α :=
  backlog.handed ++ (backlog.coming.toList ++ (backlog.queue ++ (backlog.mailbox ++ backlog.lost)))

/-- The steps of a backlog, with the request that arrives in them. -/
inductive Step (backlog : Backlog α) : Option α → Backlog α → Prop where
  | stay : Step backlog none backlog
  | enqueue (x : α) : Step backlog (some x) { backlog with queue := backlog.queue ++ [x] }
  | post (x : α) : Step backlog (some x) { backlog with mailbox := backlog.mailbox ++ [x] }
  | take (x : α) (rest : List α) : backlog.coming = none →
      backlog.queue ++ backlog.mailbox = x :: rest →
      Step backlog none { backlog with queue := rest, mailbox := [], coming := some x }
  | start (x : α) : backlog.coming = some x →
      Step backlog none { backlog with coming := none, handed := backlog.handed ++ [x] }
  | lose (x : α) : backlog.coming = some x →
      Step backlog none { backlog with coming := none, lost := backlog.lost ++ [x] }
  | drain : backlog.coming = none →
      Step backlog none { backlog with mailbox := [], handed := backlog.handed ++ backlog.mailbox }

/-- `a` is ahead of `b`, on the way through the queue or through the mailbox. -/
def Ahead (backlog : Backlog α) (a b : α) : Prop :=
  [a, b].Sublist (backlog.handed ++ backlog.coming.toList ++ backlog.queue) ∨
    [a, b].Sublist (backlog.handed ++ backlog.coming.toList ++ backlog.mailbox)

def Ordered (backlog : Backlog α) (a b : α) : Prop :=
  a ∈ backlog.lost ∨ b ∈ backlog.lost ∨ backlog.Ahead a b

variable {backlog after : Backlog α} {arrives : Option α} {a b : α}

theorem sublist_without {l before after : List α} {x : α} (h : l.Sublist (before ++ x :: after))
    (hx : x ∉ l) : l.Sublist (before ++ after) := by
  obtain ⟨first, second, rfl, hfirst, hsecond⟩ := List.sublist_append_iff.mp h
  refine hfirst.append ?_
  rcases List.sublist_cons_iff.mp hsecond with hsecond | ⟨rest, rfl, -⟩
  · exact hsecond
  · exact absurd (List.mem_append_right _ List.mem_cons_self) hx

theorem sublist_left {l r : List α} (h : [a, b].Sublist (l ++ r)) (hb : b ∉ r) :
    [a, b].Sublist l := by
  obtain ⟨first, second, hsplit, hfirst, hsecond⟩ := List.sublist_append_iff.mp h
  rcases List.eq_nil_or_concat second with rfl | ⟨rest, last, rfl⟩
  · rw [List.append_nil] at hsplit
    rw [hsplit]
    exact hfirst
  · have hlast : b = last := by
      have := congrArg List.getLast? hsplit
      simpa using this
    subst hlast
    exact absurd (hsecond.subset (by simp)) hb

theorem Ordered.imp (h : backlog.Ordered a b) (hlost : backlog.lost ⊆ after.lost)
    (hahead : backlog.Ahead a b → after.Ahead a b) : after.Ordered a b := by
  rcases h with hmem | hmem | hwaits
  · exact Or.inl (hlost hmem)
  · exact Or.inr (Or.inl (hlost hmem))
  · exact Or.inr (Or.inr (hahead hwaits))

theorem Step.ordered (hstep : Step backlog arrives after) (h : backlog.Ordered a b) :
    after.Ordered a b := by
  cases hstep with
  | stay => exact h
  | enqueue x =>
      refine h.imp (List.Subset.refl _) (Or.imp_left fun hqueue => ?_)
      rw [← List.append_assoc]
      exact hqueue.trans (List.sublist_append_left _ _)
  | post x =>
      refine h.imp (List.Subset.refl _) (Or.imp_right fun hmailbox => ?_)
      rw [← List.append_assoc]
      exact hmailbox.trans (List.sublist_append_left _ _)
  | take x rest hnone hbacklog =>
      -- Both doors lead to the queue now, and the mailbox was behind it.
      have hnext : backlog.handed ++ [x] ++ rest =
          backlog.handed ++ (backlog.queue ++ backlog.mailbox) := by
        rw [List.append_assoc, List.singleton_append, hbacklog]
      refine h.imp (List.Subset.refl _) fun hahead => Or.inl ?_
      show [a, b].Sublist (backlog.handed ++ [x] ++ rest)
      rw [hnext]
      simp only [Ahead, hnone, Option.toList_none, List.append_nil] at hahead
      rcases hahead with hqueue | hmailbox
      · exact hqueue.trans ((List.Sublist.refl _).append (List.sublist_append_left _ _))
      · exact hmailbox.trans ((List.Sublist.refl _).append (List.sublist_append_right _ _))
  | start x hcoming =>
      refine h.imp (List.Subset.refl _) fun hahead => ?_
      simp only [Ahead, hcoming, Option.toList_some] at hahead
      simp only [Ahead, Option.toList_none, List.append_nil]
      exact hahead
  | lose x hcoming =>
      by_cases hx : x ∈ [a, b]
      · have hmem : x ∈ backlog.lost ++ [x] := List.mem_append_right _ (List.mem_singleton_self _)
        rcases List.mem_pair.mp hx with rfl | rfl
        · exact Or.inl hmem
        · exact Or.inr (Or.inl hmem)
      · refine h.imp (List.subset_append_left _ _) fun hahead => ?_
        simp only [Ahead, hcoming, Option.toList_some, List.append_assoc, List.singleton_append]
          at hahead
        simp only [Ahead, Option.toList_none, List.append_nil]
        exact hahead.imp (fun h => sublist_without h hx) (fun h => sublist_without h hx)
  | drain hnone =>
      refine h.imp (List.Subset.refl _) fun hahead => ?_
      simp only [Ahead, hnone, Option.toList_none, List.append_nil] at hahead ⊢
      refine hahead.imp_left fun hqueue => ?_
      exact hqueue.trans ((List.sublist_append_left _ _).append (List.Sublist.refl _))

/-- A step moves what is in the backlog, and lets in what arrives. -/
theorem Step.perm [DecidableEq α] (hstep : Step backlog arrives after) :
    after.all.Perm (arrives.toList ++ backlog.all) := by
  rw [List.perm_iff_count]
  intro y
  cases hstep with
  | stay => rfl
  | enqueue x =>
      simp only [all, Option.toList_some, List.count_append, List.count_cons, List.count_nil]
      omega
  | post x =>
      simp only [all, Option.toList_some, List.count_append, List.count_cons, List.count_nil]
      omega
  | take x rest hnone hbacklog =>
      have hcount := congrArg (List.count y) hbacklog
      simp only [List.count_append, List.count_cons] at hcount
      simp only [all, hnone, Option.toList_some, Option.toList_none, List.count_append,
        List.count_cons, List.count_nil]
      omega
  | start x hcoming =>
      simp only [all, hcoming, Option.toList_some, Option.toList_none, List.count_append,
        List.count_cons, List.count_nil]
      omega
  | lose x hcoming =>
      simp only [all, hcoming, Option.toList_some, Option.toList_none, List.count_append,
        List.count_cons, List.count_nil]
      omega
  | drain hnone =>
      simp only [all, hnone, Option.toList_none, List.count_append, List.count_nil]
      omega

/-- What is handed out in order stays so: only what waits can still be handed. -/
theorem Ordered.handed (h : backlog.Ordered a b) (hnodup : backlog.all.Nodup) :
    a ∈ backlog.lost ∨ (b ∈ backlog.handed → [a, b].Sublist backlog.handed) := by
  obtain ⟨-, -, hdisjoint⟩ := List.nodup_append.mp hnodup
  have hgone : b ∈ backlog.handed →
      b ∉ backlog.coming.toList ++ (backlog.queue ++ (backlog.mailbox ++ backlog.lost)) :=
    fun hmem hother => hdisjoint b hmem b hother rfl
  simp only [List.mem_append, not_or] at hgone
  rcases h with hlost | hlost | hqueue | hmailbox
  · exact Or.inl hlost
  · exact Or.inr fun hmem => absurd hlost (hgone hmem).2.2.2
  · refine Or.inr fun hmem => ?_
    rw [List.append_assoc] at hqueue
    exact sublist_left hqueue (by simp [hgone hmem])
  · refine Or.inr fun hmem => ?_
    rw [List.append_assoc] at hmailbox
    exact sublist_left hmailbox (by simp [hgone hmem])

/-- A request that joins the queue is behind everything but the mailbox. -/
theorem ordered_enqueue (ha : a ∈ backlog.all) (hplace : a ∉ backlog.mailbox) :
    Ordered { backlog with queue := backlog.queue ++ [b] } a b := by
  by_cases hlost : a ∈ backlog.lost
  · exact Or.inl hlost
  · refine Or.inr (Or.inr (Or.inl ?_))
    have hmem : a ∈ backlog.handed ++ backlog.coming.toList ++ backlog.queue := by
      simp only [all, List.mem_append] at ha ⊢
      tauto
    show [a, b].Sublist (backlog.handed ++ backlog.coming.toList ++ (backlog.queue ++ [b]))
    rw [← List.append_assoc]
    exact (List.singleton_sublist.mpr hmem).append (List.Sublist.refl [b])

/-- A request that joins the mailbox is behind everything but the queue. -/
theorem ordered_post (ha : a ∈ backlog.all) (hplace : a ∉ backlog.queue) :
    Ordered { backlog with mailbox := backlog.mailbox ++ [b] } a b := by
  by_cases hlost : a ∈ backlog.lost
  · exact Or.inl hlost
  · refine Or.inr (Or.inr (Or.inr ?_))
    have hmem : a ∈ backlog.handed ++ backlog.coming.toList ++ backlog.mailbox := by
      simp only [all, List.mem_append] at ha ⊢
      tauto
    show [a, b].Sublist (backlog.handed ++ backlog.coming.toList ++ (backlog.mailbox ++ [b]))
    rw [← List.append_assoc]
    exact (List.singleton_sublist.mpr hmem).append (List.Sublist.refl [b])

end Backlog

variable {O T : Type}

/-- The runner has not been called. -/
def Phase.early : Phase O → Bool
  | .created => true
  | .acquiring => true
  | .starting => true
  | _ => false

namespace Lane

/-- The turn that is on its way to the runner. -/
def coming (lane : Lane O T) : Option Nat :=
  match lane.turn with
  | some turn => if turn.phase.early then some turn.fut else none
  | none => none

/-- The turns that ended before they reached the runner. -/
def lost (lane : Lane O T) : List Nat :=
  (lane.finished.filter fun turn => !turn.started).map Turn.fut

def backlog (lane : Lane O T) : Backlog Nat where
  queue := lane.pending.map Prod.snd
  mailbox := lane.mailbox.map Prod.snd
  coming := lane.coming
  handed := lane.handed.flatten
  lost := lane.lost

/-- A turn is announced when it reaches the runner. -/
def Paced (lane : Lane O T) : Prop :=
  ∀ turn, lane.turn = some turn → turn.isDone = false → turn.started = !turn.phase.early

/-- The step cancels nothing. -/
def Uncancelled (lane : Lane O T) : LaneStep O T → Prop
  | .submit _ policy => ¬(policy = .interrupt ∧ lane.isRunning = true)
  | .cancelTurn _ => False
  | .cancelRunning => False
  | .drainPending => False
  | _ => True

/-- The request that the step brings. -/
def arrives (lane : Lane O T) : LaneStep O T → Option Nat
  | .submit _ _ => some lane.issued
  | _ => none

variable {lane after : Lane O T} {turn : Turn O}

variable (lane) in
theorem coming_of_turn (hturn : lane.turn = some turn) :
    lane.coming = if turn.phase.early then some turn.fut else none := by
  rw [coming, hturn]

variable (lane) in
theorem backlog_setTurn (hturn : lane.turn = some turn) (turn' : Turn O)
    (hfut : turn'.fut = turn.fut) (hearly : turn'.phase.early = turn.phase.early) :
    (lane.setTurn turn').backlog = lane.backlog := by
  have hcoming : (lane.setTurn turn').coming = lane.coming := by
    rw [lane.coming_of_turn hturn, (lane.setTurn turn').coming_of_turn rfl, hfut, hearly]
  rw [backlog, hcoming]
  rfl

/-- A turn that ends on its way to the runner is lost, any other leaves no trace. -/
theorem backlog_finish (lane : Lane O T) (turn : Turn O) (result : TaskResult O) :
    (lane.finish turn result).backlog =
      { lane.backlog with
        coming := none
        lost := if turn.started then lane.lost else lane.lost ++ [turn.fut] } := by
  have hlost : (lane.finish turn result).lost =
      if turn.started then lane.lost else lane.lost ++ [turn.fut] := by
    rw [lost, finish, lost]
    cases hstarted : turn.started with
    | true => simp
    | false => simp
  rw [backlog, hlost]
  rfl

theorem paced_finish (lane : Lane O T) (turn : Turn O) (result : TaskResult O) :
    (lane.finish turn result).Paced := by
  intro other hother hlive
  cases hother
  cases hlive

variable (lane) in
theorem paced_setTurn {turn' : Turn O} (h : turn'.started = !turn'.phase.early) :
    (lane.setTurn turn').Paced := by
  intro other hother _
  cases hother
  exact h

/-! ## The steps of a lane are steps of its backlog -/

/-- What a step of the lane does to its backlog. -/
structure Books (lane : Lane O T) (arrives : Option Nat) (after : Lane O T) : Prop where
  step : lane.backlog.Step arrives after.backlog
  paced : after.Paced
  issued : after.issued = lane.issued + arrives.toList.length

theorem Books.of_eq (hbacklog : after.backlog = lane.backlog) (hpaced : after.Paced)
    (hissued : after.issued = lane.issued) : lane.Books none after := by
  refine ⟨?_, hpaced, hissued⟩
  rw [hbacklog]
  exact Backlog.Step.stay

/-- A turn that is lost before the runner is called. -/
theorem Books.lose (hturn : lane.turn = some turn) (hearly : turn.phase.early = true)
    (hunstarted : turn.started = false) (result : TaskResult O) :
    lane.Books none (lane.finish turn result) := by
  refine ⟨?_, paced_finish lane turn result, rfl⟩
  rw [backlog_finish, hunstarted]
  apply Backlog.Step.lose
  show lane.coming = some turn.fut
  rw [coming_of_turn _ hturn, hearly]
  rfl

theorem backlog_submit (lane : Lane O T) (req : TurnRequest) (policy : BusyPolicy)
    (hquiet : ¬(policy = .interrupt ∧ lane.isRunning = true)) :
    (lane.submit req policy).backlog =
      if policy = .inject ∧ lane.isRunning = true then
        { lane.backlog with mailbox := lane.backlog.mailbox ++ [lane.issued] }
      else { lane.backlog with queue := lane.backlog.queue ++ [lane.issued] } := by
  have hquiet' : ¬(policy = .interrupt ∧ lane.issue.isRunning = true) := hquiet
  simp only [Lane.submit]
  rw [if_neg hquiet']
  by_cases hinject : policy = .inject ∧ lane.isRunning = true
  · have hinject' : policy = .inject ∧ lane.issue.isRunning = true := hinject
    rw [if_pos hinject, if_pos hinject']
    simp [backlog, issue, coming, lost]
  · have hinject' : ¬(policy = .inject ∧ lane.issue.isRunning = true) := hinject
    rw [if_neg hinject, if_neg hinject']
    simp [backlog, issue, coming, lost, enqueue, wakeWorker]

theorem books_submit (hpaced : lane.Paced) (req : TurnRequest) (policy : BusyPolicy)
    (hquiet : ¬(policy = .interrupt ∧ lane.isRunning = true)) :
    lane.Books (some lane.issued) (lane.submit req policy) := by
  refine ⟨?_, ?_, ?_⟩
  · rw [backlog_submit lane req policy hquiet]
    split
    · exact Backlog.Step.post lane.issued
    · exact Backlog.Step.enqueue lane.issued
  · have hquiet' : ¬(policy = .interrupt ∧ lane.issue.isRunning = true) := hquiet
    simp only [Lane.submit]
    rw [if_neg hquiet']
    split <;> exact hpaced
  · have hquiet' : ¬(policy = .interrupt ∧ lane.issue.isRunning = true) := hquiet
    simp only [Lane.submit]
    rw [if_neg hquiet']
    split <;> rfl

/-- The head of the queue becomes the turn; the mailbox is empty here. -/
theorem books_takeNext (hturn : after.turn = none) (hmailbox : after.mailbox = [])
    (hqueue : after.backlog.queue = lane.backlog.queue ++ lane.backlog.mailbox)
    (hcoming : lane.coming = none) (hhanded : after.handed = lane.handed)
    (hfinished : after.finished = lane.finished) (hissued : after.issued = lane.issued) (now : T) :
    lane.Books none (after.takeNext now) := by
  have hlost : after.lost = lane.lost := by rw [lost, hfinished, lost]
  rw [Lane.takeNext]
  split
  · next hpending =>
      have hempty : lane.backlog.queue ++ lane.backlog.mailbox = [] := by
        rw [← hqueue, backlog, hpending]
        rfl
      obtain ⟨hfirst, hsecond⟩ := List.append_eq_nil_iff.mp hempty
      apply Books.of_eq
      · have hsame : lane.backlog = ⟨lane.backlog.queue, lane.backlog.mailbox, lane.coming,
            lane.handed.flatten, lane.lost⟩ := rfl
        rw [hsame, hfirst, hsecond, hcoming, ← hhanded, ← hlost]
        simp [backlog, coming, lost, hturn, hpending, hmailbox]
      · intro turn hsome
        rw [hturn] at hsome
        cases hsome
      · exact hissued
  · next req fut rest hpending =>
      refine ⟨?_, ?_, hissued⟩
      · have hnext : lane.backlog.queue ++ lane.backlog.mailbox = fut :: rest.map Prod.snd := by
          rw [← hqueue, backlog, hpending]
          rfl
        have hstep := Backlog.Step.take fut (rest.map Prod.snd) hcoming hnext
        simpa [backlog, coming, lost, hhanded, hfinished, hmailbox, Phase.early] using hstep
      · intro turn hsome _
        cases hsome
        rfl

theorem books_runWorker (h : lane.Inv) (hpaced : lane.Paced) (now : T) :
    lane.Books none (lane.runWorker now) := by
  rw [Lane.runWorker]
  split
  · next hready =>
      have hturn : lane.turn = none := by
        cases hturn : lane.turn with
        | none => rfl
        | some turn =>
            have hawaiting := h.awaited.mp (by rw [hturn]; rfl)
            rw [hready] at hawaiting
            cases hawaiting
      have hmailbox : lane.mailbox = [] := by
        by_contra hsome
        have hturn' := h.aimed hsome
        rw [hturn] at hturn'
        cases hturn'
      apply books_takeNext hturn hmailbox _ _ rfl rfl rfl
      · simp [backlog, hmailbox]
      · rw [coming, hturn]
  · next turn hawaiting hturn =>
      split
      · next result hdone =>
          obtain ⟨resolved, hshape⟩ := lane.resolve_shape turn.fut result.outcome .worker
          rw [closeTurn, hshape]
          refine books_takeNext ?_ ?_ ?_ ?_ ?_ ?_ ?_ now
          · rfl
          · rfl
          · simp [backlog]
          · rw [coming_of_turn _ hturn, hdone]
            rfl
          · rfl
          · rfl
          · rfl
      · exact Books.of_eq rfl hpaced rfl
  · exact Books.of_eq rfl hpaced rfl

/-- Before the runner is called the turn moves on or is lost. -/
theorem books_advance (hturn : lane.turn = some turn) (hearly : turn.phase.early = true)
    (hunstarted : turn.started = false) {phase : Phase O} (hphase : phase.early = true) :
    lane.Books none (if turn.mustCancel = true then lane.finish turn .cancelled
      else lane.setTurn { turn with phase }) := by
  split
  · exact Books.lose hturn hearly hunstarted _
  · apply Books.of_eq
    · exact lane.backlog_setTurn hturn { turn with phase } rfl (hphase.trans hearly.symm)
    · apply paced_setTurn _
      rw [hunstarted, hphase]
      rfl
    · rfl

/-- From the runner on only the sink and the futures are told something. -/
theorem books_setTurn (hturn : lane.turn = some turn) (hearly : turn.phase.early = false)
    (turn' : Turn O) (hfut : turn'.fut = turn.fut) (hstarted' : turn'.started = true)
    (hearly' : turn'.phase.early = false) (resolved : List (Resolution O)) :
    lane.Books none ({ lane with resolved }.setTurn turn') := by
  apply Books.of_eq
  · exact { lane with resolved }.backlog_setTurn hturn turn' hfut (hearly'.trans hearly.symm)
  · apply paced_setTurn _
    rw [hstarted', hearly']
    rfl
  · rfl

theorem books_settleChained (hturn : lane.turn = some turn) (hearly : turn.phase.early = false)
    (turn' : Turn O) (hfut : turn'.fut = turn.fut) (hstarted' : turn'.started = true)
    (hearly' : turn'.phase.early = false) (outcome : Option O) :
    lane.Books none (lane.settleChained turn' outcome) := by
  obtain ⟨resolved, hshape⟩ := lane.resolveAll_shape turn'.chained outcome .merged
  rw [settleChained, hshape]
  exact books_setTurn hturn hearly { turn' with chained := [] } hfut hstarted' hearly' resolved

theorem books_finish {mid : Lane O T} (h : lane.Books none mid) (hturn : mid.turn = some turn)
    (hearly : turn.phase.early = false) {turn' : Turn O} (hstarted : turn'.started = true)
    (result : TaskResult O) : lane.Books none (mid.finish turn' result) := by
  refine ⟨?_, paced_finish mid turn' result, h.issued⟩
  have hsame : (mid.finish turn' result).backlog = mid.backlog := by
    have hcoming : mid.coming = none := by
      rw [coming_of_turn _ hturn, hearly]
      rfl
    rw [backlog_finish, hstarted, if_pos rfl, ← hcoming]
    rfl
  rw [hsame]
  exact h.step

theorem books_endTurn (hpaced : lane.Paced) (hturn : lane.turn = some turn) (sinkEnd : SinkEnd) :
    lane.Books none (lane.endTurn turn sinkEnd) := by
  have hstarted := hpaced turn hturn
  rw [Lane.endTurn]
  cases hphase : turn.phase with
  | ending outcome =>
      have hlate : turn.phase.early = false := by rw [hphase]; rfl
      rw [hlate] at hstarted
      have hstarted := hstarted (isDone_of_phase hphase rfl)
      apply books_finish (Books.of_eq rfl hpaced rfl) hturn hlate
      exact hstarted
  | failing cancelled =>
      have hlate : turn.phase.early = false := by rw [hphase]; rfl
      rw [hlate] at hstarted
      have hstarted := hstarted (isDone_of_phase hphase rfl)
      have hsettled := books_settleChained hturn hlate
        { turn with
          phase := .failing cancelled
          terminals := turn.terminals ++ [(.turnFailed, sinkEnd)] } rfl hstarted rfl none
      apply books_finish hsettled rfl rfl
      exact hstarted
  | created => exact Books.of_eq rfl hpaced rfl
  | acquiring => exact Books.of_eq rfl hpaced rfl
  | starting => exact Books.of_eq rfl hpaced rfl
  | running => exact Books.of_eq rfl hpaced rfl
  | done result => exact Books.of_eq rfl hpaced rfl

theorem books_taskStep (hpaced : lane.Paced) (hturn : lane.turn = some turn)
    (i : LaneStep O T) : lane.Books none (lane.taskStep turn i) := by
  have hstarted := hpaced turn hturn
  cases i with
  | beginTurn =>
      simp only [Lane.taskStep, Lane.beginTurn]
      cases hphase : turn.phase with
      | created =>
          have hearly : turn.phase.early = true := by rw [hphase]; rfl
          rw [hearly] at hstarted
          simp only [if_true]
          exact books_advance hturn hearly (hstarted (isDone_of_phase hphase rfl)) rfl
      | _ => exact Books.of_eq rfl hpaced rfl
  | acquired =>
      simp only [Lane.taskStep, Lane.acquired]
      cases hphase : turn.phase with
      | acquiring =>
          have hearly : turn.phase.early = true := by rw [hphase]; rfl
          rw [hearly] at hstarted
          simp only [if_true]
          exact books_advance hturn hearly (hstarted (isDone_of_phase hphase rfl)) rfl
      | _ => exact Books.of_eq rfl hpaced rfl
  | startTurn sinkEnd =>
      simp only [Lane.taskStep]
      cases hphase : turn.phase with
      | starting =>
          have hearly : turn.phase.early = true := by rw [hphase]; rfl
          rw [hearly] at hstarted
          have hunstarted := hstarted (isDone_of_phase hphase rfl)
          cases sinkEnd with
          | completed =>
              refine ⟨?_, lane.paced_setTurn rfl, rfl⟩
              have hcoming : lane.coming = some turn.fut := by
                rw [coming_of_turn _ hturn, hearly]
                rfl
              have hstep := Backlog.Step.start turn.fut (show lane.backlog.coming = _ from hcoming)
              simpa [backlog, Lane.startTurn, setTurn, coming, lost, Phase.early] using hstep
          | failed => exact Books.lose hturn hearly hunstarted _
          | cancelled => exact Books.lose hturn hearly hunstarted _
      | _ => exact Books.of_eq rfl hpaced rfl
  | drain =>
      simp only [Lane.taskStep]
      cases hphase : turn.phase with
      | running =>
          have hlate : turn.phase.early = false := by rw [hphase]; rfl
          rw [hlate] at hstarted
          have hstarted := hstarted (isDone_of_phase hphase rfl)
          refine ⟨?_, lane.paced_setTurn ?_, rfl⟩
          · have hcoming : lane.coming = none := by
              rw [coming_of_turn _ hturn, hlate]
              rfl
            have hstep := Backlog.Step.drain (show lane.backlog.coming = _ from hcoming)
            simpa [backlog, Lane.drain, setTurn, coming, hturn, lost, hphase, Phase.early] using hstep
          · show turn.started = !turn.phase.early
            rw [hstarted, hlate]
      | _ => exact Books.of_eq rfl hpaced rfl
  | deliver =>
      simp only [Lane.taskStep]
      split
      · apply Books.of_eq
        · exact lane.backlog_setTurn hturn { turn with mustCancel := false } rfl rfl
        · intro other hother hlive
          cases hother
          exact hstarted hlive
        · rfl
      · exact Books.of_eq rfl hpaced rfl
  | endRunner runnerEnd =>
      simp only [Lane.taskStep]
      cases hphase : turn.phase with
      | running =>
          have hlate : turn.phase.early = false := by rw [hphase]; rfl
          rw [hlate] at hstarted
          have hstarted := hstarted (isDone_of_phase hphase rfl)
          cases runnerEnd with
          | returned outcome =>
              exact books_settleChained hturn hlate { turn with phase := .ending outcome } rfl
                hstarted rfl _
          | raised =>
              exact books_setTurn hturn hlate { turn with phase := .failing false } rfl hstarted rfl
                lane.resolved
          | cancelled =>
              exact books_setTurn hturn hlate { turn with phase := .failing true } rfl hstarted rfl
                lane.resolved
      | _ => exact Books.of_eq rfl hpaced rfl
  | endTurn sinkEnd => exact books_endTurn hpaced hturn sinkEnd
  | _ => exact Books.of_eq rfl hpaced rfl

theorem books_step (h : lane.Inv) (hpaced : lane.Paced) (i : LaneStep O T)
    (hquiet : lane.Uncancelled i) : lane.Books (lane.arrives i) (lane.step i) := by
  have htask : lane.Books none (match lane.turn with
      | some turn => lane.taskStep turn i
      | none => lane) := by
    split
    · next turn hturn => exact books_taskStep hpaced hturn i
    · exact Books.of_eq rfl hpaced rfl
  cases i with
  | submit req policy => exact books_submit hpaced req policy hquiet
  | cancelTurn fut => exact absurd hquiet id
  | cancelRunning => exact absurd hquiet id
  | drainPending => exact absurd hquiet id
  | worker now => exact books_runWorker h hpaced now
  | _ => exact htask

/-! ## Runs without cancellation -/

/-- Everything that was ever submitted is in the backlog, once. -/
structure Booked (lane : Lane O T) : Prop where
  inv : lane.Inv
  paced : lane.Paced
  all : lane.backlog.all.Perm (List.range lane.issued)

theorem Booked.step (h : lane.Booked) (i : LaneStep O T) (hquiet : lane.Uncancelled i) :
    (lane.step i).Booked := by
  have hbooks := books_step h.inv h.paced i hquiet
  refine ⟨h.inv.step i, hbooks.paced, ?_⟩
  rw [hbooks.issued]
  refine hbooks.step.perm.trans ?_
  cases i with
  | submit req policy =>
      rw [arrives, Option.toList_some, List.length_singleton, List.range_succ]
      exact (List.perm_append_comm).trans (h.all.append_right _)
  | _ => exact h.all

theorem booked_init : Booked ({} : Lane O T) where
  inv := inv_init
  paced _ h := by cases h
  all := List.Perm.refl _

theorem Booked.nodup (h : lane.Booked) : lane.backlog.all.Nodup :=
  h.all.nodup_iff.mpr List.nodup_range

theorem Booked.mem_all (h : lane.Booked) {fut : Nat} (hfut : fut < lane.issued) :
    fut ∈ lane.backlog.all :=
  h.all.mem_iff.mpr (List.mem_range.mpr hfut)

/-- `a` went to the runner in an earlier turn or drain than `b`, or ahead of it in the same
one, if `b` went there at all. -/
def HandedInOrder (lane : Lane O T) (a b : Nat) : Prop :=
  b ∈ lane.handed.flatten → [a, b].Sublist lane.handed.flatten

/-- A request to inject that comes now would not be put elsewhere than where `fut`
waits. -/
def WaitsInPlace (lane : Lane O T) (fut : Nat) : Prop :=
  if lane.isRunning = true then fut ∉ lane.pending.map Prod.snd
  else fut ∉ lane.mailbox.map Prod.snd

theorem ordered_submit (h : lane.Booked) (req : TurnRequest) {fut : Nat} (hfut : fut < lane.issued)
    (hplace : lane.WaitsInPlace fut) :
    (lane.submit req .inject).backlog.Ordered fut lane.issued := by
  rw [backlog_submit lane req .inject (by simp)]
  rw [WaitsInPlace] at hplace
  by_cases hrunning : lane.isRunning = true
  · rw [if_pos hrunning] at hplace
    rw [if_pos ⟨rfl, hrunning⟩]
    exact Backlog.ordered_post (h.mem_all hfut) hplace
  · rw [if_neg hrunning] at hplace
    rw [if_neg fun hinject => hrunning hinject.2]
    exact Backlog.ordered_enqueue (h.mem_all hfut) hplace

theorem booked_run {s : Lane O T} (h : s.Booked) {is : List (LaneStep O T)}
    (hquiet : (laneMachine O T).Along Uncancelled s is) :
    ((laneMachine O T).run s is).Booked ∧ s.issued ≤ ((laneMachine O T).run s is).issued :=
  Machine.run_invariant (m := laneMachine O T)
    (P := fun lane => lane.Booked ∧ s.issued ≤ lane.issued) (G := Uncancelled)
    (fun lane i ⟨hbooked, hle⟩ hstep => ⟨hbooked.step i hstep, by
      have hissued := (books_step hbooked.inv hbooked.paced i hstep).issued
      show s.issued ≤ (lane.step i).issued
      omega⟩) ⟨h, Nat.le_refl _⟩ hquiet

theorem ordered_run {s : Lane O T} (h : s.Booked) {a b : Nat} (hab : s.backlog.Ordered a b)
    {is : List (LaneStep O T)} (hquiet : (laneMachine O T).Along Uncancelled s is) :
    ((laneMachine O T).run s is).Booked ∧ ((laneMachine O T).run s is).backlog.Ordered a b :=
  Machine.run_invariant (m := laneMachine O T)
    (P := fun lane => lane.Booked ∧ lane.backlog.Ordered a b) (G := Uncancelled)
    (fun _ i ⟨hbooked, hordered⟩ hstep => ⟨hbooked.step i hstep,
      (books_step hbooked.inv hbooked.paced i hstep).step.ordered hordered⟩) ⟨h, hab⟩ hquiet

/-- Of two requests to inject the first is handed to the runner first, when it does not
wait in another place than the second one is put, and is not lost on its way. -/
theorem injects_keep_order (before between later : List (LaneStep O T))
    (first second : TurnRequest)
    (hquiet : (laneMachine O T).Along Uncancelled {}
      (before ++ .submit first .inject :: (between ++ .submit second .inject :: later)))
    (hplace : ((laneMachine O T).run {} (before ++ .submit first .inject :: between)).WaitsInPlace
      ((laneMachine O T).run {} before).issued) :
    let a := ((laneMachine O T).run {} before).issued
    let b := ((laneMachine O T).run {} (before ++ .submit first .inject :: between)).issued
    let lane := (laneMachine O T).run {}
      (before ++ .submit first .inject :: (between ++ .submit second .inject :: later))
    lane.handed.flatten.Nodup ∧ (a ∈ lane.lost ∨ lane.HandedInOrder a b) := by
  obtain ⟨hbefore, hfirst, hrest⟩ := Machine.along_append.mp hquiet
  obtain ⟨hbetween, hsecond, hlater⟩ := Machine.along_append.mp hrest
  have hstart := (booked_run booked_init hbefore).1
  have hissued : (((laneMachine O T).run {} before).step (.submit first .inject)).issued =
      ((laneMachine O T).run {} before).issued + 1 :=
    (books_step hstart.inv hstart.paced (.submit first .inject) hfirst).issued
  obtain ⟨hmid, hle⟩ := booked_run (hstart.step _ hfirst) hbetween
  rw [hissued] at hle
  rw [Machine.run_append, Machine.run_cons] at hplace
  have hordered := ordered_submit hmid second hle hplace
  obtain ⟨hbooked, hend⟩ := ordered_run (hmid.step _ hsecond) hordered hlater
  intro a b lane
  have hlane : lane = (laneMachine O T).run ((laneMachine O T).next ((laneMachine O T).run
      ((laneMachine O T).next ((laneMachine O T).run {} before) (.submit first .inject)) between)
      (.submit second .inject)) later := by
    show (laneMachine O T).run {} _ = _
    rw [Machine.run_append, Machine.run_cons, Machine.run_append, Machine.run_cons]
  have hb : b = ((laneMachine O T).run ((laneMachine O T).next ((laneMachine O T).run {} before)
      (.submit first .inject)) between).issued := by
    show ((laneMachine O T).run {} _).issued = _
    rw [Machine.run_append, Machine.run_cons]
  rw [hlane, hb]
  exact ⟨(List.nodup_append.mp hbooked.nodup).1, hend.handed hbooked.nodup⟩

/-- A turn is handed to the runner. -/
def hostRuns : List (LaneStep Nat Nat) :=
  [.submit {} .append, .worker 0, .beginTurn, .acquired, .startTurn .completed]

/-- Two requests that the turn drains together. -/
theorem injects_keep_order_drained :
    let lane := (laneMachine Nat Nat).run {}
      (hostRuns ++ .submit {} .inject :: ([] ++ .submit {} .inject :: [.drain]))
    lane.handed.flatten.Nodup ∧ (1 ∈ lane.lost ∨ lane.HandedInOrder 1 2) :=
  injects_keep_order hostRuns [] [.drain] {} {}
    (by simp [hostRuns, Machine.Along, Uncancelled])
    (by unfold WaitsInPlace; decide +kernel)

/-- A turn is queued, the running one ends, and the queued one is handed to the runner. -/
def queuedRuns : List (LaneStep Nat Nat) :=
  [.submit {} .append, .endRunner (.returned 0), .endTurn .completed, .worker 0, .beginTurn,
    .acquired, .startTurn .completed]

/-- The mailbox is drained, the turn ends, and the next one is handed to the runner. -/
def drainedThenNext : List (LaneStep Nat Nat) :=
  [.drain, .endRunner (.returned 0), .endTurn .completed, .worker 0, .beginTurn, .acquired,
    .startTurn .completed]

/-- A request that the first turn left in the mailbox falls back behind the queued one, and
the request that comes while that one runs passes it. -/
theorem fallenBack_is_overtaken :
    let is := hostRuns ++ .submit {} .inject ::
      (queuedRuns ++ .submit {} .inject :: drainedThenNext)
    (laneMachine Nat Nat).Along Uncancelled {} is ∧
      ((laneMachine Nat Nat).run {} hostRuns).issued = 1 ∧
      ((laneMachine Nat Nat).run {} (hostRuns ++ .submit {} .inject :: queuedRuns)).issued = 3 ∧
      ((laneMachine Nat Nat).run {} is).handed = [[0], [2], [3], [1]] ∧
      ¬((laneMachine Nat Nat).run {} is).HandedInOrder 1 3 := by
  refine ⟨?_, by decide +kernel, by decide +kernel, by decide +kernel, ?_⟩
  · simp [hostRuns, queuedRuns, drainedThenNext, Machine.Along, Uncancelled]
  · unfold HandedInOrder
    decide +kernel

end Lane
end Pico
end CodeCub

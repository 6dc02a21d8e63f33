import CodeCub.Agent.Watchdog
import CodeCub.Machine.Run
import CodeCub.Native.ToolRuns

/-!
# Recovery turns in a run

`AgentLoop.run` feeds the watchdog from two places.  An executed tool carries the
tool-step counter; a repeated evidence request, refused without running anything,
carries the attempt counter, which also moves on iterations that observe nothing.  The
watchdog subtracts the step that began a recovery from the step of the event at hand,
so a recovery that meets both kinds subtracts one counter from the other.
-/

namespace CodeCub
namespace Agent

open Tooling

/-! ## Runs -/

/-- One iteration of the loop, as the watchdog sees it. -/
inductive Turn
  | executed (o : Observation)
  | refused (name : String) (args : ToolArgs)
  /-- A retry, a refused final answer, a failed assembly: an attempt without an event. -/
  | idle

/-- The metadata of a refused evidence request. -/
def rejectedMeta : EventMetadata :=
  { toolStatus := .rejected, toolErrorCode := "repeated_evidence" }

def Turn.observation : Turn → Option Observation
  | .executed o => some o
  | .refused name args =>
      some { name, args, metadata := rejectedMeta, result := "rejected: repeated evidence request" }
  | .idle => none

/-- The history of a recovery turn: which kind of event began it, how far the attempt
counter was ahead of the tool steps then, and the iterations since.  While the recovery
lasts, none of its events brought progress. -/
structure Recovery where
  byRefusal : Bool := false
  gap : Nat := 0
  executed : Nat := 0
  refused : Nat := 0
  idle : Nat := 0
  deriving DecidableEq, Repr

namespace Recovery

/-- The events since the recovery began. -/
def events (recovery : Recovery) : Nat := recovery.executed + recovery.refused

def count (recovery : Recovery) : Turn → Recovery
  | .executed _ => { recovery with executed := recovery.executed + 1 }
  | .refused _ _ => { recovery with refused := recovery.refused + 1 }
  | .idle => { recovery with idle := recovery.idle + 1 }

/-- How far the recorded start is ahead of the tool steps of that moment. -/
def lead (recovery : Recovery) : Nat := if recovery.byRefusal then recovery.gap else 0

/-- How far an event's counter is ahead of the counter that began the recovery: by the
tools executed since, or by the iterations since, give or take the gap when the two
kinds differ. -/
def moved (recovery : Recovery) : Turn → Nat
  | .executed _ => recovery.executed + 1 - recovery.lead
  | .refused _ _ =>
      recovery.executed + recovery.refused + recovery.idle + 1 + (recovery.gap - recovery.lead)
  | .idle => 0

/-- The recorded start and the two counters, as the history tells them: `steps` tools
had been executed when the recovery began. -/
def Dates (recovery : Recovery) (start toolSteps attempts : Nat) : Prop :=
  ∃ steps, start = steps + recovery.lead ∧ toolSteps = steps + recovery.executed ∧
    attempts = steps + recovery.gap + recovery.executed + recovery.refused + recovery.idle

theorem count_events {turn : Turn} {o : Observation} (ho : turn.observation = some o)
    (recovery : Recovery) : (recovery.count turn).events = recovery.events + 1 := by
  cases turn with
  | executed o =>
      show recovery.executed + 1 + recovery.refused = recovery.executed + recovery.refused + 1
      omega
  | refused name args => rfl
  | idle => cases ho

theorem lead_le_gap (recovery : Recovery) : recovery.lead ≤ recovery.gap := by
  rw [lead]
  split <;> omega

end Recovery

structure WatchedRun where
  watchdog : ProgressWatchdog := {}
  toolSteps : Nat := 0
  attempts : Nat := 0
  raised : Bool := false
  recovery : Recovery := {}

namespace WatchedRun

/-- The loop's counters after an iteration. -/
def tick (r : WatchedRun) : Turn → WatchedRun
  | .executed _ => { r with attempts := r.attempts + 1, toolSteps := r.toolSteps + 1 }
  | _ => { r with attempts := r.attempts + 1 }

/-- The step number that the iteration's event carries. -/
def stamp (r : WatchedRun) (turn : Turn) : Nat :=
  match turn with
  | .executed _ => (r.tick turn).toolSteps
  | _ => (r.tick turn).attempts

/-- A run that was confirmed stuck has returned, and one that raised is over. -/
def ended (r : WatchedRun) : Bool := r.raised || r.watchdog.state = .stuckConfirmed

def begun (r : WatchedRun) (turn : Turn) : Recovery where
  byRefusal := match turn with | .refused _ _ => true | _ => false
  gap := (r.tick turn).attempts - (r.tick turn).toolSteps

/-- The recovery's history after an event, which may have begun a new one. -/
def followUp (r : WatchedRun) (turn : Turn) (decision : WatchdogDecision) : Recovery :=
  if decision.suspectedNow then r.begun turn else r.recovery.count turn

def advance (cfg : WatchdogConfig) (u : Unicode) (r : WatchedRun) (turn : Turn) : WatchedRun :=
  match turn.observation with
  | none => { r.tick turn with recovery := r.recovery.count turn }
  | some o =>
      match r.watchdog.observe cfg u o (r.stamp turn) with
      | none => { r with raised := true }
      | some (watchdog, decision) =>
          { r.tick turn with watchdog, recovery := r.followUp turn decision }

end WatchedRun

def watchedLoop (cfg : WatchdogConfig) (u : Unicode) : Machine WatchedRun Turn Unit where
  step r turn := (if r.ended then r else r.advance cfg u turn, ())

/-- The native loop counts in the same way: an iteration after which it goes on is the
tick of a turn that executes a tool exactly when the iteration runs one. -/
theorem tick_iterate {cfg : Native.LoopConfig} {it : Native.Iteration} {s : Native.LoopState}
    {r : WatchedRun} {turn : Turn} (hcounters : (r.toolSteps, r.attempts) = s.counters)
    (hturn : (∃ o, turn = .executed o) ↔ (Native.toolRun cfg it s).isSome = true)
    (hgoes : (Native.iterate cfg s it).outcome = none) :
    ((r.tick turn).toolSteps, (r.tick turn).attempts) =
      (Native.iterate cfg s it).state.counters := by
  obtain ⟨hsteps, hattempts⟩ := Prod.mk.inj hcounters
  rw [Native.iterate_counters hgoes, ← hsteps, ← hattempts]
  cases turn with
  | executed o =>
      rw [if_pos (hturn.mp ⟨o, rfl⟩)]
      rfl
  | refused name args =>
      have hrun : ¬ (Native.toolRun cfg it s).isSome = true := by
        intro hrun
        obtain ⟨o, ho⟩ := hturn.mpr hrun
        cases ho
      rw [if_neg hrun]
      rfl
  | idle =>
      have hrun : ¬ (Native.toolRun cfg it s).isSome = true := by
        intro hrun
        obtain ⟨o, ho⟩ := hturn.mpr hrun
        cases ho
      rw [if_neg hrun]
      rfl

/-! ## Counters and history -/

/-- The counters and the recorded start agree with the history of the recovery. -/
structure Clocked (r : WatchedRun) : Prop where
  settled : r.watchdog.state ≠ .stuckSuspected
  ordered : r.toolSteps ≤ r.attempts
  started : r.watchdog.state = .recovery → ∃ start,
    r.watchdog.recoveryStartStep = some start ∧ r.recovery.Dates start r.toolSteps r.attempts

/-- A recovery is open only before its window is full of events, and is confirmed only
after. -/
def InWindow (cfg : WatchdogConfig) (r : WatchedRun) : Prop :=
  (r.watchdog.state = .recovery → r.recovery.events < cfg.recoveryWindow) ∧
    (r.watchdog.state = .stuckConfirmed → cfg.recoveryWindow ≤ r.recovery.events)

/-- At an event of an open recovery that brings no progress, the counter has moved by
the window exactly when the events have filled it. -/
def OnTime (cfg : WatchdogConfig) (u : Unicode) (r : WatchedRun) (turn : Turn) : Prop :=
  ∀ o watchdog decision, r.raised = false → r.watchdog.state = .recovery →
    turn.observation = some o →
    r.watchdog.observe cfg u o (r.stamp turn) = some (watchdog, decision) →
    decision.progressSignals = [] →
    (cfg.recoveryWindow ≤ r.recovery.moved turn ↔ cfg.recoveryWindow ≤ r.recovery.events + 1)

namespace WatchedRun

variable {cfg : WatchdogConfig} {u : Unicode} {r : WatchedRun} {turn : Turn} {o : Observation}

@[simp] theorem tick_watchdog (r : WatchedRun) (turn : Turn) :
    (r.tick turn).watchdog = r.watchdog := by
  cases turn <;> rfl

theorem tick_ordered (h : r.toolSteps ≤ r.attempts) (turn : Turn) :
    (r.tick turn).toolSteps ≤ (r.tick turn).attempts := by
  cases turn with
  | executed o => exact Nat.succ_le_succ h
  | refused name args => exact Nat.le_succ_of_le h
  | idle => exact Nat.le_succ_of_le h

/-- An event's distance from the start of the recovery, read off the history. -/
theorem elapsed_eq_moved (hr : Clocked r) (hrecovery : r.watchdog.state = .recovery)
    (ho : turn.observation = some o) :
    r.watchdog.recoveryElapsed (r.stamp turn) = r.recovery.moved turn := by
  obtain ⟨start, hsome, steps, hstart, hsteps, hattempts⟩ := hr.started hrecovery
  have hlead := r.recovery.lead_le_gap
  rw [ProgressWatchdog.recoveryElapsed, hsome]
  cases turn with
  | executed o =>
      simp only [stamp, tick, Recovery.moved]
      omega
  | refused name args =>
      simp only [stamp, tick, Recovery.moved]
      omega
  | idle => cases ho

/-- Counting an iteration keeps the history true. -/
theorem dates_count {start : Nat} (h : r.recovery.Dates start r.toolSteps r.attempts)
    (turn : Turn) :
    (r.recovery.count turn).Dates start (r.tick turn).toolSteps (r.tick turn).attempts := by
  obtain ⟨steps, hstart, hsteps, hattempts⟩ := h
  refine ⟨steps, ?_⟩
  cases turn with
  | executed o =>
      refine ⟨hstart, ?_, ?_⟩
      · simp only [tick, Recovery.count]
        omega
      · simp only [tick, Recovery.count]
        omega
  | refused name args =>
      refine ⟨hstart, hsteps, ?_⟩
      simp only [tick, Recovery.count]
      omega
  | idle =>
      refine ⟨hstart, hsteps, ?_⟩
      simp only [tick, Recovery.count]
      omega

/-- A recovery begins with an empty history. -/
theorem dates_begun (hordered : r.toolSteps ≤ r.attempts) (ho : turn.observation = some o) :
    (r.begun turn).Dates (r.stamp turn) (r.tick turn).toolSteps (r.tick turn).attempts := by
  refine ⟨(r.tick turn).toolSteps, ?_, rfl, ?_⟩
  · cases turn with
    | executed o => rfl
    | refused name args =>
        simp only [stamp, tick, begun, Recovery.lead, if_true]
        omega
    | idle => cases ho
  · have htick := tick_ordered hordered turn
    simp only [begun]
    omega

/-- An observed event leaves the watchdog normal, begins a recovery, or goes on with
the open one, which it confirms exactly when the counter has moved by the window. -/
theorem observe_cases (hr : Clocked r) (hlive : r.ended = false)
    (ho : turn.observation = some o) {watchdog : ProgressWatchdog} {decision : WatchdogDecision}
    (h : r.watchdog.observe cfg u o (r.stamp turn) = some (watchdog, decision)) :
    (watchdog.state = .normal ∧
      (r.watchdog.state = .recovery → decision.progressSignals ≠ [])) ∨
    (r.watchdog.state = .normal ∧ watchdog.phase = (.recovery, some (r.stamp turn)) ∧
      r.followUp turn decision = r.begun turn) ∨
    (r.watchdog.state = .recovery ∧ decision.progressSignals = [] ∧
      r.followUp turn decision = r.recovery.count turn ∧
      ((cfg.recoveryWindow ≤ r.recovery.moved turn ∧ watchdog.state = .stuckConfirmed) ∨
       (¬ cfg.recoveryWindow ≤ r.recovery.moved turn ∧ watchdog.phase = r.watchdog.phase))) := by
  cases hstate : r.watchdog.state with
  | normal =>
      rcases ProgressWatchdog.observe_normal hstate h with ⟨-, hnormal⟩ | ⟨hsuspected, hphase⟩
      · exact Or.inl ⟨hnormal, nofun⟩
      · refine Or.inr (Or.inl ⟨rfl, hphase, ?_⟩)
        rw [followUp, if_pos hsuspected]
  | recovery =>
      obtain ⟨hsuspected, hcases⟩ := ProgressWatchdog.observe_recovery hstate h
      have hfollow : r.followUp turn decision = r.recovery.count turn := by
        rw [followUp, hsuspected]
        rfl
      rw [elapsed_eq_moved hr hstate ho] at hcases
      rcases hcases with ⟨hsignals, hnormal⟩ | ⟨hsignals, hmoved, hconfirmed⟩ |
        ⟨hsignals, hmoved, hphase⟩
      · exact Or.inl ⟨hnormal, fun _ => hsignals⟩
      · exact Or.inr (Or.inr ⟨rfl, hsignals, hfollow, Or.inl ⟨hmoved, hconfirmed⟩⟩)
      · exact Or.inr (Or.inr ⟨rfl, hsignals, hfollow, Or.inr ⟨hmoved, hphase⟩⟩)
  | stuckSuspected => exact absurd hstate hr.settled
  | stuckConfirmed => simp [ended, hstate] at hlive

theorem clocked_advance (hr : Clocked r) (hlive : r.ended = false) (turn : Turn) :
    Clocked (r.advance cfg u turn) := by
  have hordered := tick_ordered hr.ordered turn
  unfold advance
  split
  · refine ⟨by simpa using hr.settled, hordered, fun hrecovery => ?_⟩
    obtain ⟨start, hsome, hdates⟩ := hr.started (by simpa using hrecovery)
    exact ⟨start, by simpa using hsome, dates_count hdates turn⟩
  · next o ho =>
      split
      · exact ⟨hr.settled, hr.ordered, hr.started⟩
      · next watchdog decision hobserve =>
          rcases observe_cases hr hlive ho hobserve with
            ⟨hnormal, -⟩ | ⟨-, hphase, hbegun⟩ | ⟨hrecovery, -, hcount, hcases⟩
          · refine ⟨?_, hordered, ?_⟩
            · rw [hnormal]
              nofun
            · intro hrecovery
              rw [hnormal] at hrecovery
              cases hrecovery
          · have hstate : watchdog.state = .recovery := congrArg Prod.fst hphase
            refine ⟨by rw [hstate]; nofun, hordered, fun _ => ?_⟩
            refine ⟨r.stamp turn, congrArg Prod.snd hphase, ?_⟩
            dsimp only
            rw [hbegun]
            exact dates_begun hr.ordered ho
          · rcases hcases with ⟨-, hconfirmed⟩ | ⟨-, hphase⟩
            · refine ⟨by rw [hconfirmed]; nofun, hordered, fun h => ?_⟩
              rw [hconfirmed] at h
              cases h
            · have hstate : watchdog.state = .recovery := (congrArg Prod.fst hphase).trans hrecovery
              refine ⟨by rw [hstate]; nofun, hordered, fun _ => ?_⟩
              obtain ⟨start, hsome, hdates⟩ := hr.started hrecovery
              refine ⟨start, (congrArg Prod.snd hphase).trans hsome, ?_⟩
              dsimp only
              rw [hcount]
              exact dates_count hdates turn

theorem onTime_iff (hraised : r.raised = false) (ho : turn.observation = some o)
    {watchdog : ProgressWatchdog} {decision : WatchdogDecision}
    (h : r.watchdog.observe cfg u o (r.stamp turn) = some (watchdog, decision)) :
    OnTime cfg u r turn ↔
      (r.watchdog.state = .recovery → decision.progressSignals = [] →
        (cfg.recoveryWindow ≤ r.recovery.moved turn ↔
          cfg.recoveryWindow ≤ r.recovery.events + 1)) := by
  constructor
  · intro honTime hrecovery hsignals
    exact honTime o watchdog decision hraised hrecovery ho h hsignals
  · intro hmoved o' _ _ _ hrecovery ho' h' hsignals
    cases ho.symm.trans ho'
    cases h.symm.trans h'
    exact hmoved hrecovery hsignals

/-- An iteration whose event raises, or that has none, is on time. -/
theorem onTime_of_unobserved
    (h : ∀ o, turn.observation = some o → r.watchdog.observe cfg u o (r.stamp turn) = none) :
    OnTime cfg u r turn := by
  intro o watchdog decision _ _ ho hobserve
  rw [h o ho] at hobserve
  cases hobserve

/-- One iteration of a live run keeps the recovery in its window exactly when its event
is on time. -/
theorem inWindow_advance_iff (hr : Clocked r) (hlive : r.ended = false) (hwindow : InWindow cfg r)
    (turn : Turn) : InWindow cfg (r.advance cfg u turn) ↔ OnTime cfg u r turn := by
  have hraised : r.raised = false := by
    simp only [ended, Bool.or_eq_false_iff] at hlive
    exact hlive.1
  unfold advance
  split
  · next ho =>
      refine iff_of_true ?_ (onTime_of_unobserved fun o ho' => ?_)
      · cases turn with
        | idle => exact hwindow
        | executed o => cases ho
        | refused name args => cases ho
      · rw [ho] at ho'
        cases ho'
  · next o ho =>
      split
      · next hobserve =>
          refine iff_of_true hwindow (onTime_of_unobserved fun o' ho' => ?_)
          cases ho.symm.trans ho'
          exact hobserve
      · next watchdog decision hobserve =>
          rw [onTime_iff hraised ho hobserve]
          rcases observe_cases hr hlive ho hobserve with
            ⟨hnormal, hsignals⟩ | ⟨hnormal, hphase, hbegun⟩ | ⟨hrecovery, hsignals, hcount, hcases⟩
          · refine iff_of_true ?_ fun hrecovery hnone => absurd hnone (hsignals hrecovery)
            unfold InWindow
            rw [hnormal]
            exact ⟨nofun, nofun⟩
          · refine iff_of_true ?_ fun hrecovery => by rw [hnormal] at hrecovery; cases hrecovery
            have hstate : watchdog.state = .recovery := congrArg Prod.fst hphase
            unfold InWindow
            rw [hstate, hbegun]
            exact ⟨fun _ => cfg.recovery_pos, nofun⟩
          · have hevents : (r.followUp turn decision).events = r.recovery.events + 1 := by
              rw [hcount, Recovery.count_events ho]
            rcases hcases with ⟨hmoved, hconfirmed⟩ | ⟨hmoved, hphase⟩
            · unfold InWindow
              rw [hconfirmed, hevents]
              simp [hrecovery, hsignals, hmoved]
            · have hstate : watchdog.state = .recovery := (congrArg Prod.fst hphase).trans hrecovery
              unfold InWindow
              rw [hstate, hevents]
              simp [hrecovery, hsignals, hmoved]

end WatchedRun

/-! ## Whole runs -/

namespace WatchedRun

variable {cfg : WatchdogConfig} {u : Unicode} {r : WatchedRun}

theorem watchedLoop_next (r : WatchedRun) (turn : Turn) :
    (watchedLoop cfg u).next r turn = if r.ended then r else r.advance cfg u turn := rfl

theorem onTime_of_ended (hended : r.ended = true) (turn : Turn) : OnTime cfg u r turn := by
  intro o watchdog decision hraised hrecovery
  simp [ended, hraised, hrecovery] at hended

theorem clocked_next (hr : Clocked r) (turn : Turn) :
    Clocked ((watchedLoop cfg u).next r turn) := by
  rw [watchedLoop_next]
  split
  · exact hr
  · next hlive => exact clocked_advance hr (by simpa using hlive) turn

theorem inWindow_next_iff (hr : Clocked r) (hwindow : InWindow cfg r) (turn : Turn) :
    InWindow cfg ((watchedLoop cfg u).next r turn) ↔ OnTime cfg u r turn := by
  rw [watchedLoop_next]
  split
  · next hended => exact iff_of_true hwindow (onTime_of_ended hended turn)
  · next hlive => exact inWindow_advance_iff hr (by simpa using hlive) hwindow turn

theorem inWindow_keep (turn : Turn) (honTime : OnTime cfg u r turn)
    (hr : Clocked r ∧ InWindow cfg r) :
    Clocked ((watchedLoop cfg u).next r turn) ∧ InWindow cfg ((watchedLoop cfg u).next r turn) :=
  ⟨clocked_next hr.1 turn, (inWindow_next_iff hr.1 hr.2 turn).mpr honTime⟩

theorem clocked_start : Clocked {} := ⟨nofun, Nat.le_refl 0, nofun⟩

theorem inWindow_start : InWindow cfg {} := ⟨nofun, nofun⟩

/-- Every recovery of a run is decided within its window exactly when, at every event
of an open recovery, the counter it carries has moved by the window just when the
events have filled it. -/
theorem recovery_decided_iff (cfg : WatchdogConfig) (u : Unicode) (turns : List Turn) :
    (∀ before, before <+: turns → InWindow cfg ((watchedLoop cfg u).run {} before)) ↔
      (watchedLoop cfg u).Along (OnTime cfg u) {} turns := by
  refine Machine.forall_prefix_iff_along_of (P := fun r => Clocked r ∧ InWindow cfg r) ?_ ?_ ?_
    ⟨clocked_start, inWindow_start⟩
  · intro r turn hr honTime
    exact inWindow_keep turn honTime hr
  · intro r hr
    exact hr.2
  · intro r turn hr hnext
    exact (inWindow_next_iff hr.1 hr.2 turn).mp hnext

/-! A recovery that only executed tools meet, as in a run without native tools, reads
one counter. -/

/-- The turn is not a refused evidence request. -/
def Unrefused (turn : Turn) : Prop := ∀ name args, turn ≠ .refused name args

theorem unrefused_next (turn : Turn) (hturn : Unrefused turn)
    (hr : r.recovery.byRefusal = false ∧ r.recovery.refused = 0) :
    ((watchedLoop cfg u).next r turn).recovery.byRefusal = false ∧
      ((watchedLoop cfg u).next r turn).recovery.refused = 0 := by
  rw [watchedLoop_next]
  split
  · exact hr
  · cases turn with
    | refused name args => exact absurd rfl (hturn name args)
    | idle => exact hr
    | executed o =>
        unfold advance
        simp only [Turn.observation]
        split
        · exact hr
        · unfold followUp
          dsimp only
          split
          · exact ⟨rfl, rfl⟩
          · exact hr

theorem onTime_of_unrefused (turn : Turn) (hturn : Unrefused turn)
    (hr : r.recovery.byRefusal = false ∧ r.recovery.refused = 0) : OnTime cfg u r turn := by
  intro o watchdog decision _ _ ho _ _
  cases turn with
  | refused name args => exact absurd rfl (hturn name args)
  | idle => cases ho
  | executed o =>
      have hlead : r.recovery.lead = 0 := by
        rw [Recovery.lead, hr.1]
        rfl
      rw [Recovery.moved, Recovery.events, hlead, hr.2]
      rfl

/-- Without refused evidence every recovery is decided within its window. -/
theorem executed_recovery_decided (cfg : WatchdogConfig) (u : Unicode) {turns : List Turn}
    (hturns : ∀ turn ∈ turns, Unrefused turn) :
    InWindow cfg ((watchedLoop cfg u).run {} turns) := by
  have hunrefused : (watchedLoop cfg u).Along (fun _ turn => Unrefused turn) {} turns := by
    rw [Machine.along_iff_split]
    intro before turn after hsplit
    exact hturns turn (by rw [hsplit]; simp)
  have honTime : (watchedLoop cfg u).Along (OnTime cfg u) {} turns :=
    Machine.along_of_along (P := fun r : WatchedRun =>
        r.recovery.byRefusal = false ∧ r.recovery.refused = 0)
      (fun r turn hr hturn => unrefused_next turn hturn hr)
      (fun r turn hr hturn => onTime_of_unrefused turn hturn hr) ⟨rfl, rfl⟩ hunrefused
  have hrun := Machine.run_invariant (P := fun r => Clocked r ∧ InWindow cfg r)
    (fun r turn hr honTime => inWindow_keep turn honTime hr) ⟨clocked_start, inWindow_start⟩ honTime
  exact hrun.2

end WatchedRun

/-! ## The two counters meet -/

/-- Arguments that hold a path only. -/
def pathArgs (path : String) : ToolArgs :=
  { json := "\x7b\"path\": \"" ++ path ++ "\"\x7d", path := some path }

/-- A file is read and asked for again four times, and then six directories are listed.
The fourth refusal begins a recovery at attempt 5; the listings are tool steps 2 to 7. -/
def listingsAfterRefusals : List Turn :=
  .executed { name := "read_file", args := pathArgs "a.py" } ::
    List.replicate 4 (.refused "read_file" (pathArgs "a.py")) ++
    ["a", "b", "c", "d", "e", "f"].map fun path =>
      .executed { name := "list_files", args := pathArgs path }

/-- After six events without progress the recovery is still open. -/
theorem listingsAfterRefusals_open :
    ¬ ∀ before, before <+: listingsAfterRefusals →
      InWindow {} ((watchedLoop {} asciiUnicode).run {} before) := by
  intro h
  have hwindow := (h listingsAfterRefusals (List.prefix_refl _)).1
  have hopen : ((watchedLoop {} asciiUnicode).run {} listingsAfterRefusals).watchdog.state =
        .recovery ∧
      ((watchedLoop {} asciiUnicode).run {} listingsAfterRefusals).recovery.events = 6 := by
    decide +kernel
  have hlt := hwindow hopen.1
  rw [hopen.2] at hlt
  exact absurd hlt (by decide)

end Agent
end CodeCub

import CodeCub.Agent.Progress
import Mathlib.Data.Set.Finite.Lattice
import Mathlib.Order.Bounds.Basic
import Mathlib.Logic.Function.Basic

/-!
# Endless runs over fixed actions

A run that repeats the actions of a fixed set, without changing anything, runs out of
files, symbols, searches, commands and failures: the watchdog remembers all of these.
Two things can stay new for ever.  A read is compared with the events of the bounded
queue only, and a command that has failed once counts as failed ever after.
-/

namespace CodeCub
namespace Agent

open Python Tooling

/-! ## Learning from a finite supply -/

section Learning

variable {κ : Type*} (known : ℕ → Set κ) {asks : ℕ → Prop} {key : ℕ → κ}

/-- What is known are the keys asked for so far. -/
theorem known_iff (hstart : known 0 = ∅)
    (hlearn : ∀ n x, x ∈ known (n + 1) ↔ x ∈ known n ∨ (asks n ∧ x = key n)) (n : ℕ) (x : κ) :
    x ∈ known n ↔ ∃ m < n, asks m ∧ key m = x := by
  induction n with
  | zero => simp [hstart]
  | succ n ih =>
      rw [hlearn, ih]
      constructor
      · rintro (⟨m, hlt, hasks, hkey⟩ | ⟨hasks, hkey⟩)
        · exact ⟨m, by omega, hasks, hkey⟩
        · exact ⟨n, by omega, hasks, hkey.symm⟩
      · rintro ⟨m, hlt, hasks, hkey⟩
        by_cases hlast : m = n
        · subst hlast
          exact Or.inr ⟨hasks, hkey.symm⟩
        · exact Or.inl ⟨m, by omega, hasks, hkey⟩

/-- Keys of a finite supply that are never forgotten are new only finitely often. -/
theorem finite_of_learning (hsupply : (Set.range key).Finite)
    (hlearn : ∀ n x, x ∈ known (n + 1) ↔ x ∈ known n ∨ (asks n ∧ x = key n)) :
    {n | asks n ∧ key n ∉ known n}.Finite := by
  have hmono : Monotone known := monotone_nat_of_le_succ fun n x hx => (hlearn n x).mpr (Or.inl hx)
  have hdistinct : ∀ m n, asks m → key n ∉ known n → m < n → key m ≠ key n := by
    intro m n hm hn hlt hsame
    refine hn (hmono (show m + 1 ≤ n by omega) ?_)
    exact (hlearn m _).mpr (Or.inr ⟨hm, hsame.symm⟩)
  refine Set.Finite.of_injOn (f := key) (fun n _ => Set.mem_range_self n) ?_ hsupply
  intro m hm n hn hsame
  rcases Nat.lt_trichotomy m n with hlt | heq | hgt
  · exact absurd hsame (hdistinct m n hm.1 hn.2 hlt)
  · exact heq
  · exact absurd hsame.symm (hdistinct n m hn.1 hm.2 hgt)

/-- What a key of a finite supply determines is in finite supply itself. -/
theorem finite_range_of_determined {κ β : Type*} {key : ℕ → κ} {value : ℕ → β} (hsupply : (Set.range key).Finite)
    (hdetermined : ∀ m n, key m = key n → value m = value n) : (Set.range value).Finite := by
  have : Nonempty β := ⟨value 0⟩
  obtain ⟨f, hf⟩ := (Function.factorsThrough_iff value).mp fun m n => hdetermined m n
  rw [hf, Set.range_comp]
  exact hsupply.image f

end Learning

/-! ## The bounded queue -/

/-- Membership in the queue of the last `k` things of a sequence. -/
theorem mem_lastN_map_range {α : Type} (f : ℕ → α) (k n : ℕ) (x : α) :
    x ∈ lastN k ((List.range n).map f) ↔ ∃ m < n, n ≤ m + k ∧ f m = x := by
  unfold lastN
  rw [← List.map_drop, List.range_eq_range', List.drop_range', List.mem_map]
  simp only [List.length_map, List.length_range', List.mem_range'_1]
  constructor
  · rintro ⟨m, hm, hx⟩
    exact ⟨m, by omega, by omega, hx⟩
  · rintro ⟨m, hlt, hle, hx⟩
    exact ⟨m, by omega, hx⟩

/-- A search that gave an answer found something exactly when there is something. -/
theorem anyM_eq_some {α : Type*} {f : α → Option Bool} {l : List α} {found : Bool}
    (h : l.anyM f = some found) : found = true ↔ ∃ x ∈ l, f x = some true := by
  induction l with
  | nil =>
      cases h
      simp
  | cons x rest ih =>
      rw [List.anyM, Option.bind_eq_bind, Option.bind_eq_some_iff] at h
      obtain ⟨hit, hx, hrest⟩ := h
      cases hit with
      | true =>
          cases hrest
          exact iff_of_true rfl ⟨x, List.mem_cons_self, hx⟩
      | false =>
          rw [ih hrest]
          simp [hx]

/-! ## Endless runs -/

/-- An endless run over these events.  What happens between two events (a recovery
begins, progress is reported from outside) leaves the memory of events alone. -/
structure EndlessRun (cfg : WatchdogConfig) (u : Unicode) (obs : ℕ → Observation)
    (step : ℕ → ℕ) where
  watchdog : ℕ → ProgressWatchdog
  recorded : ℕ → ProgressWatchdog
  decision : ℕ → WatchdogDecision
  starts : watchdog 0 = {}
  records : ∀ n, (watchdog n).recordToolEvent cfg u (obs n) (step n) =
    some (recorded n, decision n)
  keeps : ∀ n, (watchdog (n + 1)).memory = (recorded n).memory

/-- The events are drawn from finitely many calls, each of which has one result, and
neither they nor anything else changes a file. -/
structure FixedActions (obs : ℕ → Observation) : Prop where
  finite : (Set.range fun n => ((obs n).name, (obs n).args)).Finite
  same_result : ∀ m n, (obs m).name = (obs n).name → (obs m).args = (obs n).args →
    (obs m).metadata = (obs n).metadata ∧ (obs m).result = (obs n).result
  unchanged : ∀ n, (obs n).metadata.workspaceChanged = false
  same_digests : ∀ m n, (obs m).fileHash = (obs n).fileHash

section Conditions

variable (cfg : WatchdogConfig) (u : Unicode) (obs : ℕ → Observation) (step : ℕ → ℕ)

/-- One of the events still in the queue, at another step number, is a read of the same
file that overlaps this one by the threshold. -/
def ReadCovered (n : ℕ) : Prop :=
  ∃ m < n, n < m + cfg.maxlen ∧ step m ≠ step n ∧ (obs m).name = "read_file" ∧
    u.canonicalPath (obs m).args.path = u.canonicalPath (obs n).args.path ∧
    overlapsBy cfg.semanticReadOverlap (obs n).args (obs m).args = some true

/-- The run's outcome: empty when it succeeds. -/
def outcomeOf (n : ℕ) : String := u.errorSignature (obs n).metadata (obs n).result

def commandOf (n : ℕ) : String := u.normalizeShellCommand (obs n).args

/-- A failure that puts its command among those that have failed: the first run of the
command, or the first failure of its kind. -/
def FailureRemembered (n : ℕ) : Prop :=
  (obs n).Asks "run_shell" ∧ outcomeOf u obs n ≠ "" ∧
    ((∀ m < n, (obs m).Asks "run_shell" → commandOf u obs m ≠ commandOf u obs n) ∨
     (∀ m < n, (obs m).Asks "run_shell" → outcomeOf u obs m ≠ outcomeOf u obs n))

/-- A success of a command that is remembered to have failed. -/
def SucceedsAfterFailure (n : ℕ) : Prop :=
  (obs n).Asks "run_shell" ∧ outcomeOf u obs n = "" ∧
    ∃ m < n, FailureRemembered u obs m ∧ commandOf u obs m = commandOf u obs n

end Conditions

namespace EndlessRun

variable {cfg : WatchdogConfig} {u : Unicode} {obs : ℕ → Observation} {step : ℕ → ℕ}
  (run : EndlessRun cfg u obs step) {fresh : Bool}

/-- The memory before an event. -/
def seen (n : ℕ) : Seen := (run.watchdog n).seen

/-- The events that bring progress. -/
def progress : Set ℕ := {n | (run.decision n).progressSignals ≠ []}

theorem events_eq (n : ℕ) :
    (run.watchdog n).events =
      lastN cfg.maxlen ((List.range n).map fun m => u.event (obs m) (step m)) := by
  induction n with
  | zero =>
      rw [run.starts]
      exact List.drop_nil.symm
  | succ n ih =>
      have hkeep : (run.watchdog (n + 1)).events = (run.recorded n).events :=
        congrArg Prod.fst (run.keeps n)
      rw [hkeep, (ProgressWatchdog.recordToolEvent_memory (run.records n)).1,
        ProgressWatchdog.window, ih, lastN_lastN_append, List.range_succ, List.map_append]
      rfl

theorem mem_window (n : ℕ) (event : WatchdogEvent) :
    event ∈ (run.watchdog n).window cfg u (obs n) (step n) ↔
      ∃ m ≤ n, n < m + cfg.maxlen ∧ u.event (obs m) (step m) = event := by
  have hwindow : (run.watchdog n).window cfg u (obs n) (step n) = (run.recorded n).events :=
    (ProgressWatchdog.recordToolEvent_memory (run.records n)).1.symm
  have hkeep : (run.watchdog (n + 1)).events = (run.recorded n).events :=
    congrArg Prod.fst (run.keeps n)
  rw [hwindow, ← hkeep, run.events_eq, mem_lastN_map_range]
  simp only [Nat.lt_succ_iff, Nat.succ_le_iff]

/-- One event takes the memory to that of the next. -/
theorem detects (n : ℕ) :
    cfg.detectProgress u (run.seen n) ((run.watchdog n).window cfg u (obs n) (step n)) (obs n)
      (step n) = some (run.seen (n + 1), (run.decision n).progressSignals) := by
  have hkeep : run.seen (n + 1) = (run.recorded n).seen := congrArg Prod.snd (run.keeps n)
  rw [hkeep]
  exact (ProgressWatchdog.recordToolEvent_memory (run.records n)).2

theorem mem_progress (n : ℕ) :
    n ∈ run.progress ↔ cfg.BringsNews u (run.seen n)
      ((run.watchdog n).window cfg u (obs n) (step n)) (obs n) (step n) :=
  WatchdogConfig.detectProgress_signals (run.detects n)

/-! ### Reads -/

/-- A read that was compared with the queue is covered, or it is fresh. -/
theorem readCovered_of_stale {n : ℕ}
    (h : cfg.isFreshRead u ((run.watchdog n).window cfg u (obs n) (step n))
      (u.canonicalPath (obs n).args.path) (obs n).args (step n) = some fresh) :
    fresh = false ↔ ReadCovered cfg u obs step n := by
  unfold WatchdogConfig.isFreshRead at h
  dsimp only at h
  rw [Option.map_eq_some_iff] at h
  obtain ⟨found, hfound, rfl⟩ := h
  rw [Bool.not_eq_false', anyM_eq_some hfound]
  constructor
  · rintro ⟨event, hevent, hoverlaps⟩
    obtain ⟨hwindow, hread⟩ := List.mem_filter.mp hevent
    obtain ⟨m, hle, hlt, rfl⟩ := (run.mem_window n event).mp hwindow
    obtain ⟨hstep, hname, hpath⟩ := of_decide_eq_true hread
    have hne : m ≠ n := fun hsame => hstep (congrArg step hsame)
    exact ⟨m, by omega, hlt, hstep, hname, hpath, hoverlaps⟩
  · rintro ⟨m, hlt, hkept, hstep, hname, hpath, hoverlaps⟩
    refine ⟨u.event (obs m) (step m), List.mem_filter.mpr ⟨?_, ?_⟩, hoverlaps⟩
    · exact (run.mem_window n _).mpr ⟨m, hlt.le, hkept, rfl⟩
    · exact decide_eq_true ⟨hstep, hname, hpath⟩

theorem learns (n : ℕ) : WatchdogConfig.Learns u (run.seen n) (obs n) (run.seen (n + 1)) :=
  WatchdogConfig.detectProgress_learns (run.detects n)

theorem seen_zero : run.seen 0 = {} := by
  rw [seen, run.starts]

/-! ### Commands -/

theorem mem_commands (n : ℕ) (command : String) :
    command ∈ (run.seen n).shellCommands ↔
      ∃ m < n, (obs m).Asks "run_shell" ∧ commandOf u obs m = command :=
  known_iff (fun n => {command | command ∈ (run.seen n).shellCommands})
    (by simp [run.seen_zero]) (fun n => (run.learns n).commands) n command

theorem mem_errors (n : ℕ) (error : String) :
    error ∈ (run.seen n).errorSignatures ↔
      ∃ m < n, ((obs m).Asks "run_shell" ∧ outcomeOf u obs m ≠ "") ∧ outcomeOf u obs m = error := by
  refine known_iff (fun n => {error | error ∈ (run.seen n).errorSignatures})
    (by simp [run.seen_zero]) (fun n error => ?_) n error
  rw [and_assoc]
  exact (run.learns n).errors error

theorem failureRemembered_iff (n : ℕ) :
    FailureRemembered u obs n ↔ (obs n).Asks "run_shell" ∧ outcomeOf u obs n ≠ "" ∧
      (commandOf u obs n ∉ (run.seen n).shellCommands ∨
        outcomeOf u obs n ∉ (run.seen n).errorSignatures) := by
  unfold FailureRemembered
  refine and_congr_right fun _ => and_congr_right fun hfails => or_congr ?_ ?_
  · simp [run.mem_commands]
  · rw [run.mem_errors]
    constructor
    · rintro hnew ⟨m, hlt, hasks, hsame⟩
      exact hnew m hlt hasks.1 hsame
    · rintro hnew m hlt hasks hsame
      exact hnew ⟨m, hlt, ⟨hasks, by rw [hsame]; exact hfails⟩, hsame⟩

theorem mem_failed (n : ℕ) (command : String) :
    command ∈ (run.seen n).failedCommands ↔
      ∃ m < n, FailureRemembered u obs m ∧ commandOf u obs m = command := by
  refine known_iff (fun n => {command | command ∈ (run.seen n).failedCommands})
    (by simp [run.seen_zero]) (fun n command => ?_) n command
  have hfailed := (run.learns n).failed command
  rw [run.failureRemembered_iff, and_assoc, and_assoc, and_comm (b := command = commandOf u obs n)]
  exact hfailed

/-- A quiet read is covered, and a quiet command has not failed before. -/
theorem quiet {n : ℕ} (hquiet : n ∉ run.progress) :
    ((obs n).Asks "read_file" → ReadCovered cfg u obs step n) ∧
      ¬ SucceedsAfterFailure u obs n := by
  rw [run.mem_progress] at hquiet
  constructor
  · intro hasks
    have hstale := WatchdogConfig.isFreshRead_of_quiet hasks (run.detects n) hquiet
    exact (run.readCovered_of_stale hstale).mp rfl
  · rintro ⟨hasks, hsucceeds, hfailed⟩
    have hremembered : commandOf u obs n ∈ (run.seen n).failedCommands :=
      (run.mem_failed n _).mpr hfailed
    refine hquiet (Or.inr (Or.inr (Or.inr (Or.inr ⟨hasks, ?_⟩))))
    exact Or.inr (Or.inr ⟨hsucceeds, hremembered⟩)

/-- The events that show something the memory keeps without a bound. -/
def remembered : Set ℕ :=
  {n | ((obs n).Asks "read_file" ∧
      u.canonicalPath (obs n).args.path ∉ (run.seen n).files) ∨
    ((obs n).Asks "symbol_search" ∧
      WatchdogConfig.symbolQuery u (obs n) ∉ (run.seen n).symbolQueries) ∨
    ((obs n).Asks "search" ∧ u.normalizeSearch (obs n).args ∉ (run.seen n).searches) ∨
    ((obs n).Asks "run_shell" ∧ commandOf u obs n ∉ (run.seen n).shellCommands) ∨
    (((obs n).Asks "run_shell" ∧ outcomeOf u obs n ≠ "") ∧
      outcomeOf u obs n ∉ (run.seen n).errorSignatures)}

end EndlessRun

/-! ## The supplies -/

namespace FixedActions

variable {obs : ℕ → Observation} (fixed : FixedActions obs) (u : Unicode)

include fixed

theorem finite_of_call {β : Type*} (f : String × ToolArgs → β) :
    (Set.range fun n => f ((obs n).name, (obs n).args)).Finite := by
  rw [show (fun n => f ((obs n).name, (obs n).args)) =
    f ∘ fun n => ((obs n).name, (obs n).args) from rfl, Set.range_comp]
  exact fixed.finite.image f

theorem finite_outcomes : (Set.range (outcomeOf u obs)).Finite := by
  refine finite_range_of_determined fixed.finite fun m n hcall => ?_
  obtain ⟨hname, hargs⟩ := Prod.mk.inj hcall
  obtain ⟨hmetadata, hresult⟩ := fixed.same_result m n hname hargs
  rw [outcomeOf, outcomeOf, hmetadata, hresult]

end FixedActions

namespace EndlessRun

variable {cfg : WatchdogConfig} {u : Unicode} {obs : ℕ → Observation} {step : ℕ → ℕ}
  (run : EndlessRun cfg u obs step) (fixed : FixedActions obs)

include fixed

/-- The files stay as they are, so a digest that was taken once stays right. -/
theorem digestsKnown (n : ℕ) : (run.seen n).DigestsKnown (obs n).fileHash := by
  induction n with
  | zero =>
      rw [run.seen_zero]
      intro path hash hlookup
      cases hlookup
  | succ n ih =>
      rw [fixed.same_digests (n + 1) n]
      exact WatchdogConfig.detectProgress_digests (run.detects n) ih

/-- A finite supply is used up. -/
theorem finite_remembered : run.remembered.Finite := by
  have hfiles := finite_of_learning (fun n => {path | path ∈ (run.seen n).files})
    (fixed.finite_of_call fun call => u.canonicalPath call.2.path)
    (fun n => (run.learns n).files)
  have hsymbols := finite_of_learning (fun n => {query | query ∈ (run.seen n).symbolQueries})
    (fixed.finite_of_call fun call =>
      (u.canonicalPath call.2.path, u.casefold (strip (call.2.query.getD ""))))
    (fun n => (run.learns n).symbols)
  have hsearches := finite_of_learning (fun n => {query | query ∈ (run.seen n).searches})
    (fixed.finite_of_call fun call => u.normalizeSearch call.2)
    (fun n => (run.learns n).searches)
  have hcommands := finite_of_learning (fun n => {command | command ∈ (run.seen n).shellCommands})
    (fixed.finite_of_call fun call => u.normalizeShellCommand call.2)
    (fun n => (run.learns n).commands)
  have hlearn : ∀ n error, error ∈ (run.seen (n + 1)).errorSignatures ↔
      error ∈ (run.seen n).errorSignatures ∨
        (((obs n).Asks "run_shell" ∧ outcomeOf u obs n ≠ "") ∧ error = outcomeOf u obs n) := by
    intro n error
    rw [and_assoc]
    exact (run.learns n).errors error
  have herrors := finite_of_learning (fun n => {error | error ∈ (run.seen n).errorSignatures})
    (fixed.finite_outcomes u) hlearn
  exact hfiles.union (hsymbols.union (hsearches.union (hcommands.union herrors)))

/-- An event of a covered read and of no recovered command that is progress shows
something the memory keeps without a bound. -/
theorem remembered_of_progress {n : ℕ} (hprogress : n ∈ run.progress)
    (hcovered : (obs n).Asks "read_file" → ReadCovered cfg u obs step n)
    (hrecovered : ¬ SucceedsAfterFailure u obs n) : n ∈ run.remembered := by
  rw [run.mem_progress] at hprogress
  rcases hprogress with hchanged | ⟨hasks, hread⟩ | hsymbol | hsearch | ⟨hasks, hshell⟩
  · rw [fixed.unchanged n] at hchanged
    cases hchanged
  · rcases hread with hnew | hchanged | hfresh
    · exact Or.inl ⟨hasks, hnew⟩
    · rw [Seen.unchanged_of_digestsKnown (run.digestsKnown fixed n)] at hchanged
      cases hchanged
    · have hstale := (run.readCovered_of_stale hfresh).mpr (hcovered hasks)
      cases hstale
  · exact Or.inr (Or.inl hsymbol)
  · exact Or.inr (Or.inr (Or.inl hsearch))
  · rcases hshell with hnew | ⟨hfails, hnew⟩ | ⟨hsucceeds, hfailed⟩
    · exact Or.inr (Or.inr (Or.inr (Or.inl ⟨hasks, hnew⟩)))
    · exact Or.inr (Or.inr (Or.inr (Or.inr ⟨⟨hasks, hfails⟩, hnew⟩)))
    · exact absurd ⟨hasks, hsucceeds, (run.mem_failed n _).mp hfailed⟩ hrecovered

end EndlessRun

/-- Over fixed actions progress ends exactly when, from some event on, every read is
covered by the queue and no command succeeds that is remembered to have failed. -/
theorem progress_finite_iff {cfg : WatchdogConfig} {u : Unicode} {obs : ℕ → Observation}
    {step : ℕ → ℕ} (run : EndlessRun cfg u obs step) (fixed : FixedActions obs) :
    run.progress.Finite ↔ ∃ start, ∀ n, start ≤ n →
      ((obs n).Asks "read_file" → ReadCovered cfg u obs step n) ∧
        ¬ SucceedsAfterFailure u obs n := by
  constructor
  · intro hfinite
    obtain ⟨last, hlast⟩ := hfinite.bddAbove
    refine ⟨last + 1, fun n hn => run.quiet fun hprogress => ?_⟩
    have hle := hlast hprogress
    omega
  · rintro ⟨start, hcovered⟩
    refine ((Set.finite_lt_nat start).union (run.finite_remembered fixed)).subset ?_
    intro n hprogress
    by_cases hearly : n < start
    · exact Or.inl hearly
    · obtain ⟨hread, hrecovered⟩ := hcovered n (by omega)
      exact Or.inr (run.remembered_of_progress fixed hprogress hread hrecovered)

/-! ## Runs that do not raise -/

/-- Both line numbers are missing or numbers. -/
def ToolArgs.ValidLines (args : ToolArgs) : Prop := args.start ≠ .invalid ∧ args.stop ≠ .invalid

theorem toInt_isSome (default : Int) {line : LineArg} (h : line ≠ .invalid) :
    (line.toInt default).isSome := by
  cases line with
  | missing => rfl
  | value n => rfl
  | invalid => exact absurd rfl h

theorem overlapsBy_isSome {first second : ToolArgs} (hfirst : first.ValidLines)
    (hsecond : second.ValidLines) (threshold : ℚ) : (overlapsBy threshold first second).isSome := by
  obtain ⟨startA, hstartA⟩ := Option.isSome_iff_exists.mp (toInt_isSome 1 hfirst.1)
  obtain ⟨endA, hendA⟩ := Option.isSome_iff_exists.mp (toInt_isSome 200 hfirst.2)
  obtain ⟨startB, hstartB⟩ := Option.isSome_iff_exists.mp (toInt_isSome 1 hsecond.1)
  obtain ⟨endB, hendB⟩ := Option.isSome_iff_exists.mp (toInt_isSome 200 hsecond.2)
  unfold overlapsBy readOverlapRatio
  rw [hstartA, hendA, hstartB, hendB]
  rfl

theorem anyM_isSome {α : Type*} {f : α → Option Bool} {l : List α}
    (h : ∀ x ∈ l, (f x).isSome) : (l.anyM f).isSome := by
  induction l with
  | nil => rfl
  | cons x rest ih =>
      rw [List.forall_mem_cons] at h
      obtain ⟨hit, hx⟩ := Option.isSome_iff_exists.mp h.1
      rw [List.anyM, hx]
      cases hit with
      | true => rfl
      | false => exact ih h.2

theorem allM_isSome {α : Type*} {f : α → Option Bool} {l : List α}
    (h : ∀ x ∈ l, (f x).isSome) : (l.allM f).isSome := by
  induction l with
  | nil => rfl
  | cons x rest ih =>
      rw [List.forall_mem_cons] at h
      obtain ⟨hit, hx⟩ := Option.isSome_iff_exists.mp h.1
      rw [List.allM, hx]
      cases hit with
      | false => rfl
      | true => exact ih h.2

/-- Every event of these came with such line numbers. -/
def ValidEvents (events : List WatchdogEvent) : Prop := ∀ event ∈ events, event.args.ValidLines

section Total

variable (cfg : WatchdogConfig) (u : Unicode) (step : ℕ) {events : List WatchdogEvent}
  {w : ProgressWatchdog} {o : Observation}

theorem detectSemanticReadLoop_isSome (h : ValidEvents events) :
    (cfg.detectSemanticReadLoop u events).isSome := by
  unfold WatchdogConfig.detectSemanticReadLoop
  dsimp only
  split
  · rfl
  · split
    · rfl
    · refine allM_isSome fun pair hpair => ?_
      have hkept : ∀ event ∈ lastN cfg.identicalLoopLimit
          (events.filter fun event => event.name = "read_file"), event.args.ValidLines :=
        fun event hevent => h event
          (List.mem_of_mem_filter ((lastN_suffix _ _).subset hevent))
      split
      · rfl
      · have hfirst := (List.of_mem_zip hpair).1
        have hsecond := List.mem_of_mem_tail (List.of_mem_zip hpair).2
        exact overlapsBy_isSome (hkept _ hfirst) (hkept _ hsecond) _

theorem detectProgress_isSome (seen : Seen) (h : ValidEvents events)
    (ho : o.args.ValidLines) : (cfg.detectProgress u seen events o step).isSome := by
  have hread : (cfg.readProgress u seen events o step).isSome := by
    unfold WatchdogConfig.readProgress
    dsimp only
    split
    · rfl
    · split
      · rfl
      · unfold WatchdogConfig.isFreshRead
        rw [Option.isSome_map, Option.isSome_map]
        refine anyM_isSome fun event hevent => ?_
        exact overlapsBy_isSome ho (h event (List.mem_of_mem_filter hevent)) _
  unfold WatchdogConfig.detectProgress
  split
  · rfl
  · split
    · rfl
    · split
      · exact hread
      · split
        · rfl
        · split
          · rfl
          · split <;> rfl

theorem validEvents_window (h : ValidEvents w.events) (ho : o.args.ValidLines) :
    ValidEvents (w.window cfg u o step) := by
  intro event hevent
  rcases List.mem_append.mp ((lastN_suffix _ _).subset hevent) with hold | hnew
  · exact h event hold
  · rw [List.mem_singleton] at hnew
    rw [hnew]
    exact ho

/-- Only a line number that is no number makes an event raise. -/
theorem recordToolEvent_isSome (h : ValidEvents w.events)
    (ho : o.args.ValidLines) : (w.recordToolEvent cfg u o step).isSome := by
  have hwindow := validEvents_window cfg u step h ho
  obtain ⟨⟨seen, signals⟩, hprogress⟩ := Option.isSome_iff_exists.mp
    (detectProgress_isSome cfg u step w.seen hwindow ho)
  have hpattern : (cfg.detectStuckPattern u (w.noted cfg u o step seen signals)).isSome := by
    have hevents : (w.noted cfg u o step seen signals).events = w.window cfg u o step :=
      congrArg Prod.fst (ProgressWatchdog.noted_memory w seen signals)
    have hreads := detectSemanticReadLoop_isSome cfg u hwindow
    unfold WatchdogConfig.detectStuckPattern
    rw [hevents]
    split
    · rfl
    · split
      · rfl
      · split
        · rfl
        · split
          · rfl
          · rwa [Option.isSome_map]
  obtain ⟨pattern, hpattern⟩ := Option.isSome_iff_exists.mp hpattern
  rw [ProgressWatchdog.recordToolEvent_eq_some.mpr ⟨seen, signals, pattern, hprogress, hpattern, rfl⟩]
  rfl

end Total

/-- Without malformed line numbers the events can be recorded for ever. -/
theorem exists_endlessRun (cfg : WatchdogConfig) (u : Unicode) (obs : ℕ → Observation)
    (step : ℕ → ℕ) (hvalid : ∀ n, (obs n).args.ValidLines) :
    Nonempty (EndlessRun cfg u obs step) := by
  have hstep : ∀ (n : ℕ) (w : {w : ProgressWatchdog // ValidEvents w.events}),
      ∃ (next : {w : ProgressWatchdog // ValidEvents w.events}) (decision : WatchdogDecision),
        w.1.recordToolEvent cfg u (obs n) (step n) = some (next.1, decision) := by
    intro n w
    obtain ⟨⟨next, decision⟩, hrecord⟩ := Option.isSome_iff_exists.mp
      (recordToolEvent_isSome cfg u (step n) w.2 (hvalid n))
    refine ⟨⟨next, ?_⟩, decision, hrecord⟩
    rw [(ProgressWatchdog.recordToolEvent_memory hrecord).1]
    exact validEvents_window cfg u (step n) w.2 (hvalid n)
  choose next decision hnext using hstep
  have hfresh : ValidEvents ({} : ProgressWatchdog).events :=
    fun event hevent => absurd hevent List.not_mem_nil
  obtain ⟨chain, hzero, hsucc⟩ : ∃ chain : ℕ → {w : ProgressWatchdog // ValidEvents w.events},
      chain 0 = ⟨{}, hfresh⟩ ∧ ∀ n, chain (n + 1) = next n (chain n) :=
    ⟨fun n => Nat.rec ⟨{}, hfresh⟩ next n, rfl, fun _ => rfl⟩
  have hstarts : (chain 0).1 = {} := by rw [hzero]
  have hkeeps : ∀ n, (chain (n + 1)).1.memory = (next n (chain n)).1.memory := by
    intro n
    rw [hsucc]
  have hrecords : ∀ n, (chain n).1.recordToolEvent cfg u (obs n) (step n) =
      some ((next n (chain n)).1, decision n (chain n)) := by
    intro n
    rw [hnext]
  exact ⟨{
    watchdog := fun n => (chain n).1
    recorded := fun n => (next n (chain n)).1
    decision := fun n => decision n (chain n)
    starts := hstarts
    records := hrecords
    keeps := hkeeps }⟩

/-! ## Ten lines at a time -/

/-- The `k`-th ten lines of a file. -/
def tenLines (k : ℕ) : ToolArgs where
  json := "\x7b\"end\": " ++ toString (10 * k + 10) ++ ", \"path\": \"a.py\", \"start\": " ++
    toString (10 * k + 1) ++ "\x7d"
  path := some "a.py"
  start := .value (10 * k + 1)
  stop := .value (10 * k + 10)

/-- Reads of ten lines each, the blocks in the given order. -/
def readsOf (block : ℕ → ℕ) (n : ℕ) : Observation :=
  { name := "read_file", args := tenLines (block n) }

/-- The part of one block that another block shares. -/
theorem tenLines_overlap (a b : ℕ) :
    readOverlapRatio (tenLines a) (tenLines b) = some (if a = b then 1 else 0) := by
  have hlength : min (10 * (a : Int) + 10 - (10 * a + 1) + 1) (10 * b + 10 - (10 * b + 1) + 1) =
      10 := by omega
  have hshared : max 0 (min (10 * (a : Int) + 10) (10 * b + 10) -
      max (10 * (a : Int) + 1) (10 * b + 1) + 1) = if a = b then 10 else 0 := by
    split <;> omega
  unfold readOverlapRatio tenLines
  simp only [LineArg.toInt, Option.bind_eq_bind, Option.bind_some, Option.pure_def]
  rw [hlength, hshared, if_pos (by decide)]
  split <;> norm_num

theorem tenLines_apart {a b : ℕ} (h : a ≠ b) :
    overlapsBy (4 / 5) (tenLines a) (tenLines b) = some false := by
  rw [overlapsBy, tenLines_overlap, if_neg h]
  norm_num

theorem tenLines_again (a : ℕ) :
    overlapsBy (4 / 5) (tenLines a) (tenLines a) = some true := by
  rw [overlapsBy, tenLines_overlap, if_pos rfl]
  norm_num

theorem readsOf_fixed {block : ℕ → ℕ} {bound : ℕ} (hbound : ∀ n, block n < bound) :
    FixedActions (readsOf block) where
  finite := by
    refine ((Set.finite_lt_nat bound).image fun k => ("read_file", tenLines k)).subset ?_
    rintro _ ⟨n, rfl⟩
    exact ⟨block n, hbound n, rfl⟩
  same_result _ _ _ _ := ⟨rfl, rfl⟩
  unchanged _ := rfl
  same_digests _ _ := rfl

theorem readsOf_asks (block : ℕ → ℕ) (n : ℕ) : (readsOf block n).Asks "read_file" :=
  ⟨rfl, nofun, rfl⟩

/-- The same ten lines again and again: only the first read is progress. -/
theorem sameTenLines_quiet :
    ∃ run : EndlessRun {} asciiUnicode (readsOf fun _ => 0) id, run.progress.Finite := by
  obtain ⟨run⟩ := exists_endlessRun {} asciiUnicode (readsOf fun _ => 0) id
    fun _ => ⟨nofun, nofun⟩
  refine ⟨run, (progress_finite_iff run (readsOf_fixed fun _ => Nat.one_pos)).mpr ⟨1, ?_⟩⟩
  intro n hn
  refine ⟨fun _ => ⟨n - 1, by omega, ?_, ?_, rfl, rfl, tenLines_again 0⟩, ?_⟩
  · show n < n - 1 + 8
    omega
  · show n - 1 ≠ n
    omega
  · rintro ⟨hasks, -⟩
    have hname : "read_file" = "run_shell" := hasks.2.2
    exact absurd hname (by decide)

/-- Eight blocks of ten lines in turn: the queue holds the other seven when a block comes
round again, and every read is progress. -/
theorem eightBlocks_neverQuiet :
    FixedActions (readsOf (· % 8)) ∧
      ∃ run : EndlessRun {} asciiUnicode (readsOf (· % 8)) id, ¬ run.progress.Finite := by
  have hfixed : FixedActions (readsOf (· % 8)) := readsOf_fixed fun n => Nat.mod_lt n (by decide)
  obtain ⟨run⟩ := exists_endlessRun {} asciiUnicode (readsOf (· % 8)) id
    fun _ => ⟨nofun, nofun⟩
  refine ⟨hfixed, run, fun hfinite => ?_⟩
  obtain ⟨last, hlast⟩ := hfinite.bddAbove
  have hquiet : last + 1 ∉ run.progress := by
    intro hprogress
    have hle := hlast hprogress
    omega
  obtain ⟨m, hlt, hkept, -, -, -, hoverlaps⟩ :=
    (run.quiet hquiet).1 (readsOf_asks (· % 8) (last + 1))
  have hkept : last + 1 < m + 8 := hkept
  have hblock : (last + 1) % 8 ≠ m % 8 := by omega
  have hapart := tenLines_apart hblock
  have hsame : some false = some true := hapart.symm.trans hoverlaps
  cases hsame

end Agent
end CodeCub

import CodeCub.Agent.Watchdog
import CodeCub.Machine.Run

/-!
# News and loops

Whether an event is progress can be read off the event and the memory before it, and
whether it closes a loop off the window of events that ends with it.  The two are
judged apart: neither progress nor a recovery turn clears the window, so an event that
brings news can find the loop it broke still in there.
-/

namespace CodeCub
namespace Agent

open Python Tooling

/-! ## News -/

/-- A call of the tool that ran, and left the workspace as it was. -/
def Observation.Asks (o : Observation) (name : String) : Prop :=
  o.metadata.workspaceChanged = false ∧ o.metadata.toolStatus ≠ .rejected ∧ o.name = name

/-- A call asks one tool. -/
theorem Observation.Asks.iff_eq {o : Observation} {name : String} (h : o.Asks name)
    (other : String) : o.Asks other ↔ name = other := by
  constructor
  · intro hother
    exact h.2.2.symm.trans hother.2.2
  · rintro rfl
    exact h

/-- The tools whose calls can show something new. -/
def evidenceTools : List String := ["read_file", "symbol_search", "search", "run_shell"]

namespace Seen

/-- A digest that is remembered is the file's. -/
def DigestsKnown (seen : Seen) (digest : String → Option String) : Prop :=
  ∀ path hash, seen.fileHashes.lookup path = some hash → digest path = some hash

theorem digestsKnown_remember {seen : Seen} {digest : String → Option String}
    (h : DigestsKnown seen digest) (path : String) :
    DigestsKnown (seen.rememberFileHash (digest path) path) digest := by
  unfold rememberFileHash
  split
  · next current hcurrent =>
      intro other hash hlookup
      by_cases hsame : other = path
      · subst hsame
        rw [AList.lookup_insert, Option.some.injEq] at hlookup
        rw [hcurrent, hlookup]
      · rw [AList.lookup_insert_ne hsame] at hlookup
        exact h other hash hlookup
  · exact h

theorem unchanged_of_digestsKnown {seen : Seen} {digest : String → Option String}
    (h : DigestsKnown seen digest) (path : String) :
    seen.fileChangedSinceLastRead (digest path) path = false := by
  unfold fileChangedSinceLastRead
  split
  · next previous current hprevious hcurrent =>
      have hknown := h path previous hprevious
      rw [hcurrent, Option.some.injEq] at hknown
      simp [hknown]
  · rfl

end Seen

namespace WatchdogConfig

variable (cfg : WatchdogConfig) (u : Unicode) (seen : Seen) (events : List WatchdogEvent)
  (o : Observation) (step : Nat)

def symbolQuery : String × String :=
  (u.canonicalPath o.args.path, u.casefold (strip (o.args.query.getD "")))

/-- A new path, a file that changed since its last read, or lines no kept read covers. -/
def ReadsNews : Prop :=
  u.canonicalPath o.args.path ∉ seen.files ∨
    seen.fileChangedSinceLastRead (o.fileHash (u.canonicalPath o.args.path))
      (u.canonicalPath o.args.path) = true ∨
    cfg.isFreshRead u events (u.canonicalPath o.args.path) o.args step = some true

/-- A new command, a new way to fail, or a success of a command that has failed. -/
def ShellNews : Prop :=
  u.normalizeShellCommand o.args ∉ seen.shellCommands ∨
    (u.errorSignature o.metadata o.result ≠ "" ∧
      u.errorSignature o.metadata o.result ∉ seen.errorSignatures) ∨
    (u.errorSignature o.metadata o.result = "" ∧
      u.normalizeShellCommand o.args ∈ seen.failedCommands)

/-- The event shows something new; `events` ends with it. -/
def BringsNews : Prop :=
  o.metadata.workspaceChanged = true ∨
    (o.Asks "read_file" ∧ cfg.ReadsNews u seen events o step) ∨
    (o.Asks "symbol_search" ∧ symbolQuery u o ∉ seen.symbolQueries) ∨
    (o.Asks "search" ∧ u.normalizeSearch o.args ∉ seen.searches) ∨
    (o.Asks "run_shell" ∧ ShellNews u seen o)

variable {cfg u seen events o step} {seen' : Seen} {signals : List ProgressSignal}

theorem readProgress_signals
    (h : cfg.readProgress u seen events o step = some (seen', signals)) :
    signals ≠ [] ↔ cfg.ReadsNews u seen events o step := by
  unfold readProgress at h
  dsimp only at h
  unfold ReadsNews
  split at h
  · next hnew =>
      cases h
      simp [hnew]
  · next hknown =>
      split at h
      · next hchanged =>
          cases h
          simp [hchanged]
      · next hsame =>
          rw [Option.map_eq_some_iff] at h
          obtain ⟨fresh, hfresh, hpair⟩ := h
          obtain ⟨-, hsignals⟩ := Prod.mk.inj hpair
          rw [← hsignals, hfresh]
          by_cases hf : fresh = true
          · simp [hf]
          · simp [hf, hknown, hsame]

theorem symbolProgress_signals (step : Nat) :
    (symbolProgress u seen o step).2 ≠ [] ↔ symbolQuery u o ∉ seen.symbolQueries := by
  unfold symbolProgress symbolQuery
  dsimp only
  split
  · next hknown => simp [hknown]
  · next hnew => simp [hnew]

theorem searchProgress_signals (step : Nat) :
    (searchProgress u seen o step).2 ≠ [] ↔ u.normalizeSearch o.args ∉ seen.searches := by
  unfold searchProgress
  dsimp only
  split
  · next hknown => simp [hknown]
  · next hnew => simp [hnew]

theorem shellProgress_signals (step : Nat) :
    (shellProgress u seen o step).2 ≠ [] ↔ ShellNews u seen o := by
  unfold shellProgress ShellNews
  dsimp only
  split
  · next hnew => simp [hnew]
  · next hknown =>
      rw [not_not] at hknown
      split
      · next hfails =>
          split
          · next hold => simp [hknown, hold, hfails]
          · next hnew => simp [hnew, hfails]
      · next hworks =>
          rw [not_not] at hworks
          split
          · next hfailed => simp [hworks, hfailed]
          · next hfine => simp [hknown, hworks, hfine]

/-- What an event can do to the memory, and what it signals. -/
theorem detectProgress_cases
    (h : cfg.detectProgress u seen events o step = some (seen', signals)) :
    (o.metadata.workspaceChanged = true ∧ signals ≠ [] ∧
      seen' = { seen with workspaceEpoch := seen.workspaceEpoch + 1 }) ∨
    (o.Asks "read_file" ∧ cfg.readProgress u seen events o step = some (seen', signals)) ∨
    (o.Asks "symbol_search" ∧ symbolProgress u seen o step = (seen', signals)) ∨
    (o.Asks "search" ∧ searchProgress u seen o step = (seen', signals)) ∨
    (o.Asks "run_shell" ∧ shellProgress u seen o step = (seen', signals)) ∨
    (o.metadata.workspaceChanged = false ∧ (∀ name ∈ evidenceTools, ¬ o.Asks name) ∧
      signals = [] ∧ seen' = seen) := by
  unfold detectProgress at h
  by_cases hchanged : o.metadata.workspaceChanged = true
  · rw [if_pos hchanged] at h
    cases h
    exact Or.inl ⟨hchanged, List.cons_ne_nil _ _, rfl⟩
  rw [if_neg hchanged] at h
  rw [Bool.not_eq_true] at hchanged
  refine Or.inr ?_
  by_cases hrejected : o.metadata.toolStatus = .rejected
  · rw [if_pos hrejected] at h
    cases h
    exact Or.inr (Or.inr (Or.inr (Or.inr
      ⟨hchanged, fun _ _ hasks => hasks.2.1 hrejected, rfl, rfl⟩)))
  rw [if_neg hrejected] at h
  by_cases hread : o.name = "read_file"
  · rw [if_pos hread] at h
    exact Or.inl ⟨⟨hchanged, hrejected, hread⟩, h⟩
  rw [if_neg hread] at h
  refine Or.inr ?_
  by_cases hsymbol : o.name = "symbol_search"
  · rw [if_pos hsymbol, Option.some.injEq] at h
    exact Or.inl ⟨⟨hchanged, hrejected, hsymbol⟩, h⟩
  rw [if_neg hsymbol] at h
  refine Or.inr ?_
  by_cases hsearch : o.name = "search"
  · rw [if_pos hsearch, Option.some.injEq] at h
    exact Or.inl ⟨⟨hchanged, hrejected, hsearch⟩, h⟩
  rw [if_neg hsearch] at h
  refine Or.inr ?_
  by_cases hshell : o.name = "run_shell"
  · rw [if_pos hshell, Option.some.injEq] at h
    exact Or.inl ⟨⟨hchanged, hrejected, hshell⟩, h⟩
  · rw [if_neg hshell] at h
    cases h
    refine Or.inr ⟨hchanged, ?_, rfl, rfl⟩
    simp [evidenceTools, Observation.Asks, hread, hsymbol, hsearch, hshell]

/-- An event is progress exactly when it brings news. -/
theorem detectProgress_signals
    (h : cfg.detectProgress u seen events o step = some (seen', signals)) :
    signals ≠ [] ↔ cfg.BringsNews u seen events o step := by
  unfold BringsNews
  rcases detectProgress_cases h with ⟨hchanged, hsignals, -⟩ | ⟨hasks, hread⟩ |
    ⟨hasks, hsymbol⟩ | ⟨hasks, hsearch⟩ | ⟨hasks, hshell⟩ | ⟨hchanged, hasks, hsignals, -⟩
  · exact iff_of_true hsignals (Or.inl hchanged)
  · rw [readProgress_signals hread]
    simp [hasks.iff_eq, hasks.1]
  · rw [← symbolProgress_signals step, hsymbol]
    simp [hasks.iff_eq, hasks.1]
  · rw [← searchProgress_signals step, hsearch]
    simp [hasks.iff_eq, hasks.1]
  · rw [← shellProgress_signals step, hshell]
    simp [hasks.iff_eq, hasks.1]
  · simp only [evidenceTools, List.forall_mem_cons] at hasks
    simp [hsignals, hchanged, hasks]

/-- What the memory holds after an event, besides the digests. -/
structure Learns (u : Unicode) (seen : Seen) (o : Observation) (seen' : Seen) : Prop where
  files : ∀ path, path ∈ seen'.files ↔
    path ∈ seen.files ∨ (o.Asks "read_file" ∧ path = u.canonicalPath o.args.path)
  symbols : ∀ query, query ∈ seen'.symbolQueries ↔
    query ∈ seen.symbolQueries ∨ (o.Asks "symbol_search" ∧ query = symbolQuery u o)
  searches : ∀ query, query ∈ seen'.searches ↔
    query ∈ seen.searches ∨ (o.Asks "search" ∧ query = u.normalizeSearch o.args)
  commands : ∀ command, command ∈ seen'.shellCommands ↔
    command ∈ seen.shellCommands ∨
      (o.Asks "run_shell" ∧ command = u.normalizeShellCommand o.args)
  errors : ∀ error, error ∈ seen'.errorSignatures ↔
    error ∈ seen.errorSignatures ∨
      (o.Asks "run_shell" ∧ u.errorSignature o.metadata o.result ≠ "" ∧
        error = u.errorSignature o.metadata o.result)
  failed : ∀ command, command ∈ seen'.failedCommands ↔
    command ∈ seen.failedCommands ∨
      (o.Asks "run_shell" ∧ u.errorSignature o.metadata o.result ≠ "" ∧
        command = u.normalizeShellCommand o.args ∧
        (u.normalizeShellCommand o.args ∉ seen.shellCommands ∨
          u.errorSignature o.metadata o.result ∉ seen.errorSignatures))

theorem mem_iff_mem_or_eq {α : Type*} {l : List α} {a : α} (h : a ∈ l) (x : α) :
    x ∈ l ↔ x ∈ l ∨ x = a := by
  refine ⟨Or.inl, fun hx => ?_⟩
  rcases hx with hx | rfl
  · exact hx
  · exact h

theorem rememberFileHash_eq (seen : Seen) (hash : Option String) (path : String) :
    ∃ hashes, seen.rememberFileHash hash path = { seen with fileHashes := hashes } := by
  unfold Seen.rememberFileHash
  split
  · exact ⟨_, rfl⟩
  · exact ⟨seen.fileHashes, rfl⟩

/-- A read adds its path and may touch the digests. -/
theorem readProgress_seen (h : cfg.readProgress u seen events o step = some (seen', signals)) :
    (∀ path, path ∈ seen'.files ↔ path ∈ seen.files ∨ path = u.canonicalPath o.args.path) ∧
      ∃ files hashes, seen' = { seen with files := files, fileHashes := hashes } := by
  unfold readProgress at h
  dsimp only at h
  split at h
  · cases h
    obtain ⟨hashes, hremember⟩ := rememberFileHash_eq
      { seen with files := u.canonicalPath o.args.path :: seen.files }
      (o.fileHash (u.canonicalPath o.args.path)) (u.canonicalPath o.args.path)
    rw [hremember]
    exact ⟨fun path => List.mem_cons.trans or_comm, _, hashes, rfl⟩
  · next hknown =>
      rw [not_not] at hknown
      have hfiles := mem_iff_mem_or_eq hknown
      split at h
      · cases h
        obtain ⟨hashes, hremember⟩ := rememberFileHash_eq seen
          (o.fileHash (u.canonicalPath o.args.path)) (u.canonicalPath o.args.path)
        rw [hremember]
        exact ⟨hfiles, seen.files, hashes, rfl⟩
      · rw [Option.map_eq_some_iff] at h
        obtain ⟨fresh, -, hpair⟩ := h
        cases hpair
        exact ⟨hfiles, seen.files, seen.fileHashes, rfl⟩

theorem symbolProgress_seen (u : Unicode) (o : Observation) (step : Nat) (seen : Seen) :
    (∀ query, query ∈ (symbolProgress u seen o step).1.symbolQueries ↔
      query ∈ seen.symbolQueries ∨ query = symbolQuery u o) ∧
      ∃ queries, (symbolProgress u seen o step).1 = { seen with symbolQueries := queries } := by
  unfold symbolProgress symbolQuery
  dsimp only
  split
  · next hknown => exact ⟨mem_iff_mem_or_eq hknown, seen.symbolQueries, rfl⟩
  · exact ⟨fun query => List.mem_cons.trans or_comm, _, rfl⟩

theorem searchProgress_seen (u : Unicode) (o : Observation) (step : Nat) (seen : Seen) :
    (∀ query, query ∈ (searchProgress u seen o step).1.searches ↔
      query ∈ seen.searches ∨ query = u.normalizeSearch o.args) ∧
      ∃ queries, (searchProgress u seen o step).1 = { seen with searches := queries } := by
  unfold searchProgress
  dsimp only
  split
  · next hknown => exact ⟨mem_iff_mem_or_eq hknown, seen.searches, rfl⟩
  · exact ⟨fun query => List.mem_cons.trans or_comm, _, rfl⟩

theorem shellProgress_seen (u : Unicode) (o : Observation) (step : Nat) (seen : Seen) :
    ∃ commands errors failed, (shellProgress u seen o step).1 =
      { seen with
        shellCommands := commands, errorSignatures := errors, failedCommands := failed } := by
  unfold shellProgress
  dsimp only
  split
  · split
    · exact ⟨_, _, _, rfl⟩
    · exact ⟨_, _, _, rfl⟩
  · split
    · split
      · exact ⟨_, _, _, rfl⟩
      · exact ⟨_, _, _, rfl⟩
    · split
      · exact ⟨_, _, _, rfl⟩
      · exact ⟨_, _, _, rfl⟩

theorem mem_shellProgress_commands (u : Unicode) (o : Observation) (step : Nat)
    (seen : Seen) (command : String) :
    command ∈ (shellProgress u seen o step).1.shellCommands ↔
      command ∈ seen.shellCommands ∨ command = u.normalizeShellCommand o.args := by
  unfold shellProgress
  dsimp only
  grind

theorem mem_shellProgress_errors (u : Unicode) (o : Observation) (step : Nat)
    (seen : Seen) (error : String) :
    error ∈ (shellProgress u seen o step).1.errorSignatures ↔
      error ∈ seen.errorSignatures ∨
        (u.errorSignature o.metadata o.result ≠ "" ∧
          error = u.errorSignature o.metadata o.result) := by
  unfold shellProgress
  dsimp only
  grind

/-- A failure is kept unless both its command and its kind are known. -/
theorem mem_shellProgress_failed (u : Unicode) (o : Observation) (step : Nat)
    (seen : Seen) (command : String) :
    command ∈ (shellProgress u seen o step).1.failedCommands ↔
      command ∈ seen.failedCommands ∨
        (u.errorSignature o.metadata o.result ≠ "" ∧
          command = u.normalizeShellCommand o.args ∧
          (u.normalizeShellCommand o.args ∉ seen.shellCommands ∨
            u.errorSignature o.metadata o.result ∉ seen.errorSignatures)) := by
  unfold shellProgress
  dsimp only
  grind

/-- One event adds what it asked for to what is known, and nothing else. -/
theorem detectProgress_learns
    (h : cfg.detectProgress u seen events o step = some (seen', signals)) :
    Learns u seen o seen' := by
  rcases detectProgress_cases h with ⟨hchanged, -, rfl⟩ | ⟨hasks, hread⟩ |
    ⟨hasks, hsymbol⟩ | ⟨hasks, hsearch⟩ | ⟨hasks, hshell⟩ | ⟨-, hasks, -, rfl⟩
  · have hnone : ∀ name, ¬ o.Asks name := fun name hasks => by simp [hasks.1] at hchanged
    constructor <;> simp [hnone]
  · obtain ⟨hfiles, files, hashes, rfl⟩ := readProgress_seen hread
    constructor <;> simp [hasks.iff_eq, hfiles]
  · obtain ⟨hqueries, queries, hseen⟩ := symbolProgress_seen u o step seen
    rw [hsymbol] at hqueries hseen
    obtain rfl : seen' = { seen with symbolQueries := queries } := hseen
    constructor <;> simp [hasks.iff_eq, hqueries]
  · obtain ⟨hqueries, queries, hseen⟩ := searchProgress_seen u o step seen
    rw [hsearch] at hqueries hseen
    obtain rfl : seen' = { seen with searches := queries } := hseen
    constructor <;> simp [hasks.iff_eq, hqueries]
  · have hcommands := mem_shellProgress_commands u o step seen
    have herrors := mem_shellProgress_errors u o step seen
    have hfailed := mem_shellProgress_failed u o step seen
    obtain ⟨commands, errors, failed, hseen⟩ := shellProgress_seen u o step seen
    rw [hshell] at hcommands herrors hfailed hseen
    obtain rfl : seen' = { seen with
        shellCommands := commands, errorSignatures := errors, failedCommands := failed } := hseen
    constructor <;> simp [hasks.iff_eq, hcommands, herrors, hfailed]
  · simp only [evidenceTools, List.forall_mem_cons] at hasks
    constructor <;> simp [hasks]

/-- While the files stay as they are, a digest that was taken once stays right. -/
theorem detectProgress_digests
    (h : cfg.detectProgress u seen events o step = some (seen', signals))
    (hknown : seen.DigestsKnown o.fileHash) : seen'.DigestsKnown o.fileHash := by
  rcases detectProgress_cases h with ⟨-, -, rfl⟩ | ⟨-, hread⟩ | ⟨-, hsymbol⟩ | ⟨-, hsearch⟩ |
    ⟨-, hshell⟩ | ⟨-, -, -, rfl⟩
  · exact hknown
  · unfold readProgress at hread
    dsimp only at hread
    split at hread
    · cases hread
      refine Seen.digestsKnown_remember ?_ _
      exact hknown
    · split at hread
      · cases hread
        exact Seen.digestsKnown_remember hknown _
      · rw [Option.map_eq_some_iff] at hread
        obtain ⟨fresh, -, hpair⟩ := hread
        cases hpair
        exact hknown
  · obtain ⟨-, queries, hseen⟩ := symbolProgress_seen u o step seen
    rw [hsymbol] at hseen
    obtain rfl : seen' = { seen with symbolQueries := queries } := hseen
    exact hknown
  · obtain ⟨-, queries, hseen⟩ := searchProgress_seen u o step seen
    rw [hsearch] at hseen
    obtain rfl : seen' = { seen with searches := queries } := hseen
    exact hknown
  · obtain ⟨commands, errors, failed, hseen⟩ := shellProgress_seen u o step seen
    rw [hshell] at hseen
    obtain rfl : seen' = { seen with
        shellCommands := commands, errorSignatures := errors, failedCommands := failed } := hseen
    exact hknown
  · exact hknown

/-- A read that brings nothing was compared with the queue, and found covered. -/
theorem isFreshRead_of_quiet (hasks : o.Asks "read_file")
    (h : cfg.detectProgress u seen events o step = some (seen', signals))
    (hquiet : ¬ cfg.BringsNews u seen events o step) :
    cfg.isFreshRead u events (u.canonicalPath o.args.path) o.args step = some false := by
  obtain ⟨hknown, hsame, hfresh⟩ : u.canonicalPath o.args.path ∈ seen.files ∧
      seen.fileChangedSinceLastRead (o.fileHash (u.canonicalPath o.args.path))
        (u.canonicalPath o.args.path) = false ∧
      cfg.isFreshRead u events (u.canonicalPath o.args.path) o.args step ≠ some true := by
    simpa [BringsNews, ReadsNews, hasks.iff_eq, hasks.1] using hquiet
  obtain ⟨hchanged, hran, hname⟩ := hasks
  unfold detectProgress readProgress at h
  rw [if_neg (by simp [hchanged]), if_neg hran, if_pos hname] at h
  dsimp only at h
  rw [if_neg (not_not.mpr hknown), if_neg (by simp [hsame]), Option.map_eq_some_iff] at h
  obtain ⟨fresh, hcompared, -⟩ := h
  cases fresh with
  | true => exact absurd hcompared hfresh
  | false => exact hcompared

/-- Only the line numbers of an old read raise, and they are asked for last. -/
theorem detectProgress_isSome_of_news (h : cfg.BringsNews u seen events o step) :
    (cfg.detectProgress u seen events o step).isSome := by
  unfold detectProgress
  split
  · rfl
  · next hchanged =>
      split
      · rfl
      · next hran =>
        split
        · next hread =>
            unfold readProgress
            dsimp only
            split
            · rfl
            · next hknown =>
                split
                · rfl
                · next hsame =>
                    have hfresh : cfg.isFreshRead u events (u.canonicalPath o.args.path)
                        o.args step = some true := by
                      simpa [BringsNews, ReadsNews, Observation.Asks, hchanged, hran, hread,
                        hknown, hsame] using h
                    rw [hfresh]
                    rfl
        · split
          · rfl
          · split
            · rfl
            · split <;> rfl

/-! ## Loops -/

variable (cfg u)

/-- What a single event makes of the two streaks when they start at nothing. -/
def singleStreak (event : WatchdogEvent) (counts : Bool) : Nat :=
  if event.errorSig ≠ "" ∧ event.workspaceChanged = false ∧ counts then 1 else 0

/-- A streak limit that one event reaches on its own. -/
def StreakLimitReached (event : WatchdogEvent) : Prop :=
  cfg.verificationLoopLimit ≤ singleStreak event (event.name = "run_shell") ∨
    cfg.actionErrorLoopLimit ≤ singleStreak event (isActionTool event.name)

/-- The window shows a loop, whatever its last event brings; `event` is that event, the
first one after a reset of the streaks. -/
def ClosesLoop (events : List WatchdogEvent) (event : WatchdogEvent) : Prop :=
  cfg.detectIdenticalLoop events = true ∨ cfg.detectAlternatingLoop events = true ∨
    cfg.StreakLimitReached event ∨ cfg.detectSemanticReadLoop u events = some true ∨
    (cfg.detectSemanticReadLoop u events = some false ∧
      (cfg.detectSearchLoop events = true ∨ cfg.noProgressWindowLimit = 0))

end WatchdogConfig

namespace ProgressWatchdog

variable {cfg : WatchdogConfig} {u : Unicode} {w w' : ProgressWatchdog} {o : Observation}
  {step : Nat} {decision : WatchdogDecision} {events : List WatchdogEvent} {event : WatchdogEvent}

/-- The window of events that ends with this one. -/
def window (cfg : WatchdogConfig) (u : Unicode) (w : ProgressWatchdog) (o : Observation)
    (step : Nat) : List WatchdogEvent :=
  lastN cfg.maxlen (w.events ++ [u.event o step])

/-- The part of the watchdog that its memory makes up. -/
def memory (w : ProgressWatchdog) : List WatchdogEvent × Seen := (w.events, w.seen)

@[simp] theorem score_memory (w : ProgressWatchdog) (signals : List ProgressSignal) :
    (w.score signals).memory = w.memory := by
  unfold score
  split <;> rfl

@[simp] theorem trackStreaks_memory (w : ProgressWatchdog) (event : WatchdogEvent) :
    (w.trackStreaks event).memory = w.memory := by
  unfold trackStreaks
  split
  · split
    · rfl
    · split <;> rfl
  · rfl

/-- The watchdog when it looks for a pattern: the event is kept, what it shows is
remembered, and the score and the streaks are counted. -/
def noted (cfg : WatchdogConfig) (u : Unicode) (w : ProgressWatchdog) (o : Observation)
    (step : Nat) (seen : Seen) (signals : List ProgressSignal) : ProgressWatchdog :=
  (({ w.keep cfg (u.event o step) with seen }).score signals).trackStreaks (u.event o step)

theorem recordToolEvent_eq_some :
    w.recordToolEvent cfg u o step = some (w', decision) ↔
      ∃ seen signals pattern,
        cfg.detectProgress u w.seen (w.window cfg u o step) o step = some (seen, signals) ∧
        cfg.detectStuckPattern u (w.noted cfg u o step seen signals) = some pattern ∧
        (w.noted cfg u o step seen signals).settle cfg signals pattern step =
          (w', decision) := by
  unfold recordToolEvent
  simp only [Option.bind_eq_bind, Option.bind_eq_some_iff, Option.pure_def, Option.some.injEq]
  constructor
  · rintro ⟨⟨seen, signals⟩, hprogress, pattern, hpattern, hsettle⟩
    exact ⟨seen, signals, pattern, hprogress, hpattern, hsettle⟩
  · rintro ⟨seen, signals, pattern, hprogress, hpattern, hsettle⟩
    exact ⟨(seen, signals), hprogress, pattern, hpattern, hsettle⟩

@[simp] theorem noted_memory (w : ProgressWatchdog) (seen : Seen) (signals : List ProgressSignal) :
    (w.noted cfg u o step seen signals).memory = (w.window cfg u o step, seen) := by
  rw [noted, trackStreaks_memory, score_memory]
  rfl

theorem noted_state (w : ProgressWatchdog) (seen : Seen) (signals : List ProgressSignal) :
    (w.noted cfg u o step seen signals).state = w.state := by
  have hphase : (w.noted cfg u o step seen signals).phase = w.phase := by
    rw [noted, trackStreaks_phase, score_phase]
    rfl
  exact congrArg Prod.fst hphase

/-- Progress resets the streaks before its own event is counted. -/
theorem streaks_after_progress {signals : List ProgressSignal} (hsignals : signals ≠ [])
    (w : ProgressWatchdog) (event : WatchdogEvent) :
    ((w.score signals).trackStreaks event).noProgressScore = 0 ∧
      ((w.score signals).trackStreaks event).verificationLoopStreak =
        WatchdogConfig.singleStreak event (event.name = "run_shell") ∧
      ((w.score signals).trackStreaks event).actionErrorStreak =
        WatchdogConfig.singleStreak event (isActionTool event.name) := by
  obtain ⟨signal, hlast⟩ : ∃ signal, signals.getLast? = some signal :=
    Option.ne_none_iff_exists'.mp (by simpa using hsignals)
  unfold score
  rw [hlast]
  unfold trackStreaks WatchdogConfig.singleStreak
  by_cases hfails : event.errorSig ≠ "" ∧ event.workspaceChanged = false
  · by_cases hshell : event.name = "run_shell"
    · have haction : isActionTool "run_shell" = false := by decide
      simp [hfails, hshell, haction, resetNoProgress]
    · by_cases haction : isActionTool event.name = true
      · simp [hfails, hshell, haction, resetNoProgress]
      · simp [hfails, hshell, haction, resetNoProgress]
  · have hnone : ¬ (event.errorSig ≠ "" ∧ (!event.workspaceChanged) = true) := by
      simpa using hfails
    rw [if_neg hnone, if_neg fun hcounts => hfails ⟨hcounts.1, hcounts.2.1⟩,
      if_neg fun hcounts => hfails ⟨hcounts.1, hcounts.2.1⟩]
    exact ⟨rfl, rfl, rfl⟩

@[simp] theorem settle_progressSignals (cfg : WatchdogConfig) (w : ProgressWatchdog)
    (signals : List ProgressSignal) (pattern : Option StuckPattern) (step : Nat) :
    (w.settle cfg signals pattern step).2.progressSignals = signals := by
  unfold settle
  split
  · split <;> rfl
  · split
    · rfl
    · split <;> rfl
  · rfl

@[simp] theorem settle_memory (cfg : WatchdogConfig) (w : ProgressWatchdog)
    (signals : List ProgressSignal) (pattern : Option StuckPattern) (step : Nat) :
    (w.settle cfg signals pattern step).1.memory = w.memory := by
  unfold settle
  split
  · split <;> rfl
  · split
    · rfl
    · split <;> rfl
  · rfl

/-- An event that was recorded leaves the window it ended, and the memory and the signals
of the detection. -/
theorem recordToolEvent_memory (h : w.recordToolEvent cfg u o step = some (w', decision)) :
    w'.events = w.window cfg u o step ∧
      cfg.detectProgress u w.seen (w.window cfg u o step) o step =
        some (w'.seen, decision.progressSignals) := by
  obtain ⟨seen, signals, pattern, hprogress, -, hsettle⟩ := recordToolEvent_eq_some.mp h
  have hmemory := settle_memory cfg (w.noted cfg u o step seen signals) signals pattern step
  have hsignals :=
    settle_progressSignals cfg (w.noted cfg u o step seen signals) signals pattern step
  rw [hsettle, noted_memory] at hmemory
  rw [hsettle] at hsignals
  obtain ⟨hevents, hseen⟩ := Prod.mk.inj hmemory
  rw [hseen, hsignals]
  exact ⟨hevents, hprogress⟩

/-- After an event that brought news the watchdog is stuck exactly when the window shows
a loop. -/
theorem stuck_after_progress {noted : ProgressWatchdog} (hevents : noted.events = events)
    (hscore : noted.noProgressScore = 0)
    (hverification : noted.verificationLoopStreak =
      WatchdogConfig.singleStreak event (event.name = "run_shell"))
    (haction : noted.actionErrorStreak =
      WatchdogConfig.singleStreak event (isActionTool event.name)) :
    (∃ pattern, cfg.detectStuckPattern u noted = some pattern ∧
      (pattern.isSome ∨ cfg.noProgressWindowLimit ≤ noted.noProgressScore)) ↔
      cfg.ClosesLoop u events event := by
  unfold WatchdogConfig.detectStuckPattern
  rw [hevents, hverification, haction, hscore, Nat.le_zero]
  unfold WatchdogConfig.ClosesLoop WatchdogConfig.StreakLimitReached
  by_cases hidentical : cfg.detectIdenticalLoop events = true
  · simp [hidentical]
  rw [if_neg hidentical]
  by_cases halternating : cfg.detectAlternatingLoop events = true
  · simp [halternating]
  rw [if_neg halternating]
  by_cases hverify : cfg.verificationLoopLimit ≤
      WatchdogConfig.singleStreak event (event.name = "run_shell")
  · simp [hverify]
  rw [if_neg hverify]
  by_cases herrors : cfg.actionErrorLoopLimit ≤
      WatchdogConfig.singleStreak event (isActionTool event.name)
  · simp [herrors]
  rw [if_neg herrors]
  cases hreads : cfg.detectSemanticReadLoop u events with
  | none => simp [hidentical, halternating, hverify, herrors]
  | some reads =>
      by_cases hread : reads = true
      · simp [hread]
      · by_cases hsearch : cfg.detectSearchLoop events = true
        · simp [hread, hsearch]
        · simp [hidentical, halternating, hverify, herrors, hread, hsearch]

theorem settle_suspectedNow (w : ProgressWatchdog) (signals : List ProgressSignal)
    (pattern : Option StuckPattern) :
    (w.settle cfg signals pattern step).2.suspectedNow = true ↔
      w.state = .normal ∧ (pattern.isSome ∨ cfg.noProgressWindowLimit ≤ w.noProgressScore) := by
  unfold settle
  split
  · next hnormal =>
      by_cases hstuck : pattern.isSome ∨ cfg.noProgressWindowLimit ≤ w.noProgressScore
      · simp [hnormal, hstuck]
      · simp [hstuck]
  · next hrecovery =>
      rw [hrecovery]
      split
      · simp
      · split <;> simp
  · next hnormal _ => exact iff_of_false nofun fun hstuck => hnormal hstuck.1

theorem noted_stuck_iff (seen : Seen) {signals : List ProgressSignal} (hsignals : signals ≠ []) :
    (∃ pattern, cfg.detectStuckPattern u (w.noted cfg u o step seen signals) = some pattern ∧
      (pattern.isSome ∨
        cfg.noProgressWindowLimit ≤ (w.noted cfg u o step seen signals).noProgressScore)) ↔
      cfg.ClosesLoop u (w.window cfg u o step) (u.event o step) := by
  obtain ⟨hscore, hverification, haction⟩ := streaks_after_progress hsignals
    { w.keep cfg (u.event o step) with seen } (u.event o step)
  exact stuck_after_progress (congrArg Prod.fst (noted_memory w seen signals)) hscore
    hverification haction

/-- The event comes in the normal state, brings news, and finds a loop in its window. -/
def NewsInLoop (cfg : WatchdogConfig) (u : Unicode) (w : ProgressWatchdog) (o : Observation)
    (step : Nat) : Prop :=
  w.state = .normal ∧ cfg.BringsNews u w.seen (w.window cfg u o step) o step ∧
    cfg.ClosesLoop u (w.window cfg u o step) (u.event o step)

/-- Exactly such an event is suspected although it brought progress. -/
theorem suspected_progress_iff :
    (∃ w' decision, w.recordToolEvent cfg u o step = some (w', decision) ∧
      decision.suspectedNow = true ∧ decision.progressSignals ≠ []) ↔
      w.NewsInLoop cfg u o step := by
  constructor
  · rintro ⟨w', decision, hrecord, hsuspected, hsignals⟩
    obtain ⟨seen, signals, pattern, hprogress, hpattern, hsettle⟩ :=
      recordToolEvent_eq_some.mp hrecord
    have hdecision : decision = ((w.noted cfg u o step seen signals).settle cfg signals pattern
        step).2 := by rw [hsettle]
    rw [hdecision, settle_progressSignals] at hsignals
    rw [hdecision, settle_suspectedNow, noted_state] at hsuspected
    refine ⟨hsuspected.1, (WatchdogConfig.detectProgress_signals hprogress).mp hsignals, ?_⟩
    exact (noted_stuck_iff seen hsignals).mp ⟨pattern, hpattern, hsuspected.2⟩
  · rintro ⟨hnormal, hnews, hloop⟩
    obtain ⟨⟨seen, signals⟩, hprogress⟩ :=
      Option.isSome_iff_exists.mp (WatchdogConfig.detectProgress_isSome_of_news hnews)
    have hsignals : signals ≠ [] := (WatchdogConfig.detectProgress_signals hprogress).mpr hnews
    obtain ⟨pattern, hpattern, hstuck⟩ := (noted_stuck_iff seen hsignals).mpr hloop
    have hdecision : ((w.noted cfg u o step seen signals).settle cfg signals pattern
        step).2.suspectedNow = true := by
      rw [settle_suspectedNow, noted_state]
      exact ⟨hnormal, hstuck⟩
    have hprogressed : ((w.noted cfg u o step seen signals).settle cfg signals pattern
        step).2.progressSignals ≠ [] := by
      rw [settle_progressSignals]
      exact hsignals
    exact ⟨_, _, recordToolEvent_eq_some.mpr ⟨seen, signals, pattern, hprogress, hpattern, rfl⟩,
      hdecision, hprogressed⟩

end ProgressWatchdog

/-! ## Runs -/

inductive WatchdogInput
  | event (o : Observation) (step : Nat)
  | beginRecovery (step : Nat)

/-- Events and recovery starts in any order.  An exception ends the run. -/
def watchdogMachine (cfg : WatchdogConfig) (u : Unicode) :
    Machine (Option ProgressWatchdog) WatchdogInput (Option WatchdogDecision) where
  step
    | some w, .event o step =>
        match w.recordToolEvent cfg u o step with
        | some (w', decision) => (some w', some decision)
        | none => (none, none)
    | some w, .beginRecovery step => (some (w.beginRecovery step), none)
    | none, _ => (none, none)

/-- The answer does not suspect an event that brought progress. -/
def ProgressUnsuspected (answer : Option WatchdogDecision) : Prop :=
  ∀ decision ∈ answer, decision.suspectedNow = true → decision.progressSignals = []

/-- An event that brings news in the normal state finds no loop in its window. -/
def NewsClosesNoLoop (cfg : WatchdogConfig) (u : Unicode) :
    Option ProgressWatchdog → WatchdogInput → Prop
  | some w, .event o step => ¬ w.NewsInLoop cfg u o step
  | _, _ => True

theorem progressUnsuspected_out_iff {cfg : WatchdogConfig} {u : Unicode}
    (w : Option ProgressWatchdog) (input : WatchdogInput) :
    ProgressUnsuspected ((watchdogMachine cfg u).out w input) ↔
      NewsClosesNoLoop cfg u w input := by
  unfold ProgressUnsuspected
  match w, input with
  | none, _ => exact iff_of_true (fun _ hanswer => nomatch hanswer) trivial
  | some w, .beginRecovery step => exact iff_of_true (fun _ hanswer => nomatch hanswer) trivial
  | some w, .event o step =>
      show _ ↔ ¬ w.NewsInLoop cfg u o step
      rw [← ProgressWatchdog.suspected_progress_iff]
      cases hrecord : w.recordToolEvent cfg u o step with
      | none =>
          simp [Machine.out, watchdogMachine, hrecord]
      | some recorded =>
          obtain ⟨w', decision⟩ := recorded
          simp [Machine.out, watchdogMachine, hrecord]

/-- In a run progress is never suspected exactly when no event that brings news in the
normal state finds a loop in its window. -/
theorem progress_unsuspected_iff (cfg : WatchdogConfig) (u : Unicode)
    (inputs : List WatchdogInput) :
    (∀ answer ∈ (watchdogMachine cfg u).outs (some {}) inputs, ProgressUnsuspected answer) ↔
      (watchdogMachine cfg u).Along (NewsClosesNoLoop cfg u) (some {}) inputs := by
  rw [Machine.forall_outs_iff_along]
  exact Machine.along_congr (P := fun _ => True) (fun _ _ _ _ => trivial)
    (fun w input _ => progressUnsuspected_out_iff w input) trivial

/-- One search asked five times, the recovery turn it leads to, and the first reads of
two files. -/
def readsAfterSearches : List WatchdogInput :=
  let search : Observation :=
    { name := "search",
      args := { json := "\x7b\"pattern\": \"TODO\"\x7d", pattern := some "TODO" } }
  let read (path : String) : Observation :=
    { name := "read_file",
      args := { json := "\x7b\"path\": \"" ++ path ++ "\"\x7d", path := some path } }
  (List.range 5).map (fun n => .event search (n + 1)) ++
    [.beginRecovery 5, .event (read "a.py") 6, .event (read "b.py") 7]

/-- The first read ends the recovery; at the second the searches are still in the window. -/
theorem readsAfterSearches_suspected :
    ¬ ∀ answer ∈ (watchdogMachine {} asciiUnicode).outs (some {}) readsAfterSearches,
      ProgressUnsuspected answer := by
  intro h
  have hlast : ∃ answer ∈ (watchdogMachine {} asciiUnicode).outs (some {}) readsAfterSearches,
      ∃ decision ∈ answer, decision.suspectedNow = true ∧
        decision.progressSignals = [⟨.newFile, "first read of b.py", 7⟩] := by
    decide +kernel
  obtain ⟨answer, hanswer, decision, hdecision, hsuspected, hsignals⟩ := hlast
  have hnone := h answer hanswer decision hdecision hsuspected
  rw [hsignals] at hnone
  cases hnone

end Agent
end CodeCub

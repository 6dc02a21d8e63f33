import CodeCub.Native.Assembler

/-!
# One compiled preamble

The loop appends messages to its list and hands the list to `ContextAssembler.assemble`,
which takes the preamble of the assembly before out again, by identity, and writes a new
one.  In every run, with or without a compiler, the list holds at most one preamble, its
other system messages are protocol seeds, and the filter takes nothing the loop appended.
-/

namespace CodeCub
namespace Native

open Python

/-! ## Assemblies with and without a compiler -/

/-- What one assembly is given besides the transcript; `effectiveMessage` is the user's
message with its constraints. -/
structure Sources where
  userMessage : String
  effectiveMessage : String
  workingState : Option WorkingState := none
  pinnedExtra : List (String × String) := []
  memoryLayer : String := ""

namespace Sources

def layers (sources : Sources) : Layers where
  userMessage := sources.effectiveMessage
  workingState := sources.workingState.getD {}
  pinnedExtra := sources.pinnedExtra
  memoryLayer := sources.memoryLayer

/-- The preamble of an assembler that has no compiler; blank parts are left out. -/
def plainParts (sources : Sources) : List String :=
  (sources.pinnedExtra.map (fun entry => strip entry.2) ++
    (sources.workingState.map fun state => strip state.toText).toList ++
    [strip sources.memoryLayer]).filter (· ≠ "")

end Sources

namespace Session

/-- The native branch without a compiler: the preamble, if there is one, goes first. -/
def plainMessages (s : Session) (sources : Sources) : List Message :=
  if sources.plainParts = [] then s.history sources.userMessage
  else
    { ref := s.preambleRef, role := .system,
      content := some ("\n\n".intercalate sources.plainParts) } :: s.history sources.userMessage

def assemblePlain (s : Session) (sources : Sources) : Session where
  messages := s.plainMessages sources
  lastPreamble := preambleOf (s.history sources.userMessage) (s.plainMessages sources)
  nextRef := s.preambleRef + 1
  hysteresis := s.hysteresis

/-- The native branch of `ContextAssembler.assemble`. -/
def assemble (compiler : Option Compiler) (s : Session) (sources : Sources) : Session :=
  match compiler with
  | some c => (c.assemble sources.userMessage s sources.layers).1
  | none => s.assemblePlain sources

/-- Whether the assembly makes a preamble: the compiler always renders the working
state's title. -/
def makesPreamble (compiler : Option Compiler) (sources : Sources) : Bool :=
  compiler.isSome || sources.plainParts ≠ []

end Session

/-! ## Runs -/

/-- Messages of the user, the assistant and the tools. -/
structure Batch where
  messages : List Message
  noSystem : ∀ m ∈ messages, m.role ≠ .system

inductive AssemblyStep
  | append (batch : Batch)
  | assemble (sources : Sources)
  /-- The compiler raised: nothing was written back, its counters may have moved. -/
  | failed (hysteresis : Hysteresis)

/-- A session with the identities of the messages the loop appended, of the preambles and
of the protocol seeds created so far. -/
structure Watched where
  session : Session
  appended : List Nat := []
  preambles : List Nat := []
  seeds : List Nat := []

namespace Watched

/-- The loop's list starts as the protocol seed, or empty. -/
def start : Option String → Watched
  | some userMessage => { session := .start userMessage, seeds := [0, 1] }
  | none => { session := { messages := [], nextRef := 0 } }

def append (s : Watched) (batch : Batch) : Watched :=
  { s with
    session := s.session.append batch.messages
    appended := (alloc s.session.nextRef batch.messages).map Message.ref ++ s.appended }

/-- An empty transcript is seeded with two messages. -/
def assemble (compiler : Option Compiler) (s : Watched) (sources : Sources) : Watched :=
  { session := s.session.assemble compiler sources
    appended := s.appended
    preambles :=
      if Session.makesPreamble compiler sources then s.session.preambleRef :: s.preambles
      else s.preambles
    seeds :=
      if s.session.stripped.isEmpty then
        (initialNativeMessages s.session.nextRef sources.userMessage).map Message.ref ++ s.seeds
      else s.seeds }

/-- The messages of the list that are preambles. -/
def compiledPreambles (s : Watched) : List Message :=
  s.session.messages.filter fun m => m.ref ∈ s.preambles

/-- A system message that is no preamble has the seed's text and was created as a seed. -/
def SeedsOnly (s : Watched) : Prop :=
  ∀ m ∈ s.session.messages, m.role = .system →
    m.ref ∈ s.preambles ∨ (m.ref ∈ s.seeds ∧ m.content = some nativeToolsSystemPrompt)

/-- The filter by identity keeps every message the loop appended. -/
def FilterKeepsAppended (s : Watched) : Prop :=
  ∀ m ∈ s.session.messages, m.ref ∈ s.appended → m ∈ s.session.stripped

end Watched

def watchedAssemblies (compiler : Option Compiler) : Machine Watched AssemblyStep Unit where
  step
    | s, .append batch => (s.append batch, ())
    | s, .assemble sources => (s.assemble compiler sources, ())
    | s, .failed hysteresis => ({ s with session := { s.session with hysteresis } }, ())

/-! ## Counting system messages -/

def systems (messages : List Message) : List Message :=
  messages.filter fun message => message.role == .system

theorem attach_perm {result : Message} {groups groups' : List Group}
    (h : attach result groups = some groups') :
    (groups'.flatMap Group.messages).Perm (result :: groups.flatMap Group.messages) := by
  induction groups generalizing groups' with
  | nil => simp [attach] at h
  | cons group older ih =>
      simp only [attach] at h
      split at h
      · cases h
        simp only [List.flatMap_cons, Group.messages, List.cons_append, List.append_assoc,
          List.nil_append]
        exact (List.perm_middle.cons _).trans (List.Perm.swap _ _ _)
      · obtain ⟨older', hattach, rfl⟩ := Option.map_eq_some_iff.mp h
        rw [List.flatMap_cons, List.flatMap_cons]
        exact ((ih hattach).append_left _).trans List.perm_middle

theorem groupStep_perm (groups : List Group) (index : Nat) (message : Message) :
    ((groupStep groups index message).flatMap Group.messages).Perm
      (message :: groups.flatMap Group.messages) := by
  unfold groupStep
  split
  · cases hattach : attach message groups with
    | none => exact .refl _
    | some groups' => exact attach_perm hattach
  · exact .refl _

theorem groupFrom_perm (messages : List Message) (index : Nat) (groups : List Group) :
    ((groupFrom index groups messages).flatMap Group.messages).Perm
      (messages ++ groups.flatMap Group.messages) := by
  induction messages generalizing index groups with
  | nil => exact .refl _
  | cons message rest ih =>
      refine (ih (index + 1) (groupStep groups index message)).trans ?_
      exact ((groupStep_perm groups index message).append_left rest).trans List.perm_middle

/-- Grouping loses no message and repeats none. -/
theorem groupNativeMessages_perm (messages : List Message) :
    ((groupNativeMessages messages).flatMap Group.messages).Perm messages := by
  have hreverse : (groupNativeMessages messages).Perm (groupFrom 0 [] messages) :=
    List.reverse_perm _
  refine (hreverse.flatMap_right _).trans ?_
  simpa using groupFrom_perm messages 0 []

/-- What is rendered verbatim has no more system messages than the transcript. -/
theorem systems_verbatim_le {history : List Message} {layout : Compiler.Layout}
    (h : Compiler.Accounted (groupNativeMessages history) layout) :
    (systems layout.verbatim).length ≤ (systems history).length := by
  have hflat : (layout.verbatim ++ layout.older.flatMap Group.messages).Perm history := by
    have hdealt := h.dealt.flatten
    rw [List.map_append, List.flatten_append, ← List.flatMap_def, ← List.flatMap_def,
      ← List.flatMap_def] at hdealt
    exact hdealt.trans (groupNativeMessages_perm history)
  have hfilter := (hflat.filter fun message => message.role == .system).length_eq
  unfold systems
  rw [← hfilter, List.filter_append, List.length_append]
  omega

/-! ## The invariant -/

namespace Watched

/-- The identities are those of objects created so far, a preamble is nothing else, and
the only one in the list is the one the assembler remembers. -/
structure Tracks (s : Watched) : Prop where
  created : ∀ ref, ref ∈ s.appended ∨ ref ∈ s.preambles → ref < s.session.nextRef
  below : ∀ m ∈ s.session.messages, m.ref < s.session.nextRef
  apart : ∀ ref ∈ s.preambles, ref ∉ s.appended
  remembered : ∀ m ∈ s.session.messages, m.ref ∈ s.preambles →
    s.session.lastPreamble = some m.ref
  made : ∀ ref ∈ s.session.lastPreamble, ref ∈ s.preambles
  single : s.compiledPreambles.length ≤ 1
  seedsOnly : s.SeedsOnly
  oneSeed : (systems s.session.stripped).length ≤ 1

variable {s : Watched}

theorem mem_stripped {session : Session} {m : Message} :
    m ∈ session.stripped ↔ m ∈ session.messages ∧ session.lastPreamble ≠ some m.ref := by
  unfold Session.stripped
  cases hlast : session.lastPreamble with
  | none => simp
  | some ref =>
      simp only [List.mem_filter, bne_iff_ne, ne_eq, Option.some.injEq]
      exact and_congr_right fun _ => not_congr eq_comm

theorem Tracks.filterKeepsAppended (h : s.Tracks) : s.FilterKeepsAppended := by
  intro m hm happended
  refine mem_stripped.mpr ⟨hm, fun hlast => ?_⟩
  exact h.apart m.ref (h.made m.ref hlast) happended

/-- What the filter leaves holds no preamble. -/
theorem Tracks.stripped_spec (h : s.Tracks) {m : Message} (hm : m ∈ s.session.stripped) :
    m.ref < s.session.nextRef ∧ m.ref ∉ s.preambles := by
  obtain ⟨hmem, hother⟩ := mem_stripped.mp hm
  exact ⟨h.below m hmem, fun hpreamble => hother (h.remembered m hmem hpreamble)⟩

/-- The seeds after an assembly. -/
def seedsAfter (s : Watched) (userMessage : String) : List Nat :=
  if s.session.stripped.isEmpty then
    (initialNativeMessages s.session.nextRef userMessage).map Message.ref ++ s.seeds
  else s.seeds

/-- The transcript that an assembly renders: no preamble in it, and one seed at most. -/
theorem Tracks.history_spec (h : s.Tracks) (userMessage : String) :
    (∀ m ∈ s.session.history userMessage, m.ref < s.session.preambleRef ∧ m.ref ∉ s.preambles ∧
      (m.role = .system → m.ref ∈ s.seedsAfter userMessage ∧
        m.content = some nativeToolsSystemPrompt)) ∧
      (systems (s.session.history userMessage)).length ≤ 1 := by
  unfold Session.history Session.preambleRef seedsAfter
  by_cases hempty : s.session.stripped.isEmpty = true
  · rw [if_pos hempty, if_pos hempty, if_pos hempty]
    refine ⟨fun m hm => ⟨?_, ?_, ?_⟩, ?_⟩
    · exact (ref_of_mem_alloc hm).2
    · intro hpreamble
      have hlow := (ref_of_mem_alloc hm).1
      have hhigh := h.created m.ref (Or.inr hpreamble)
      omega
    · intro hrole
      refine ⟨List.mem_append_left _ (List.mem_map_of_mem hm), ?_⟩
      simp only [initialNativeMessages, alloc, List.mem_cons, List.not_mem_nil, or_false] at hm
      rcases hm with rfl | rfl
      · rfl
      · cases hrole
    · exact Nat.le_refl 1
  · rw [if_neg hempty, if_neg hempty, if_neg hempty]
    refine ⟨fun m hm => ?_, h.oneSeed⟩
    obtain ⟨hbelow, hother⟩ := h.stripped_spec hm
    refine ⟨hbelow, hother, fun hrole => ?_⟩
    exact (h.seedsOnly m (mem_stripped.mp hm).1 hrole).resolve_left hother

theorem start_tracks (start : Option String) : (Watched.start start).Tracks := by
  cases start with
  | none => constructor <;> simp [Watched.start, compiledPreambles, SeedsOnly, systems,
      Session.stripped]
  | some userMessage =>
      constructor
      · intro ref href
        simp [Watched.start] at href
      · intro m hm
        have hbelow : 0 ≤ m.ref ∧ m.ref < 0 + 2 := ref_of_mem_alloc hm
        exact hbelow.2
      · intro ref href
        cases href
      · intro m hm hpreamble
        cases hpreamble
      · intro ref href
        cases href
      · simp [Watched.start, compiledPreambles]
      · intro m hm hrole
        simp only [Watched.start, Session.start, initialNativeMessages, alloc, List.mem_cons,
          List.not_mem_nil, or_false] at hm
        rcases hm with rfl | rfl
        · exact .inr ⟨List.mem_cons_self .., rfl⟩
        · cases hrole
      · exact Nat.le_refl 1

/-! ## Appending -/

theorem systems_alloc {messages : List Message} (h : ∀ m ∈ messages, m.role ≠ .system)
    (ref : Nat) : systems (alloc ref messages) = [] := by
  induction messages generalizing ref with
  | nil => rfl
  | cons message rest ih =>
      have hhead : message.role ≠ .system := h message (List.mem_cons_self ..)
      have htail := ih (fun m hm => h m (List.mem_cons_of_mem _ hm)) (ref + 1)
      unfold systems at htail ⊢
      rw [alloc, List.filter_cons_of_neg (by simpa using hhead)]
      exact htail

theorem Tracks.append (h : s.Tracks) (batch : Batch) : (s.append batch).Tracks := by
  have hnew : ∀ m ∈ alloc s.session.nextRef batch.messages, m.ref ∉ s.preambles := by
    intro m hm hpreamble
    have hlow := (ref_of_mem_alloc hm).1
    have hhigh := h.created m.ref (.inr hpreamble)
    omega
  have hplain : systems (alloc s.session.nextRef batch.messages) = [] :=
    systems_alloc batch.noSystem _
  constructor
  · intro ref href
    show ref < s.session.nextRef + batch.messages.length
    rcases href with href | href
    · rcases List.mem_append.mp href with href | href
      · obtain ⟨m, hm, rfl⟩ := List.mem_map.mp href
        exact (ref_of_mem_alloc hm).2
      · have := h.created ref (.inl href)
        omega
    · have := h.created ref (.inr href)
      omega
  · intro m hm
    show m.ref < s.session.nextRef + batch.messages.length
    rcases List.mem_append.mp hm with hm | hm
    · have := h.below m hm
      omega
    · exact (ref_of_mem_alloc hm).2
  · intro ref hpreamble happended
    rcases List.mem_append.mp happended with happended | happended
    · obtain ⟨m, hm, rfl⟩ := List.mem_map.mp happended
      exact hnew m hm hpreamble
    · exact h.apart ref hpreamble happended
  · intro m hm hpreamble
    rcases List.mem_append.mp hm with hm | hm
    · exact h.remembered m hm hpreamble
    · exact absurd hpreamble (hnew m hm)
  · exact h.made
  · have hnone : (alloc s.session.nextRef batch.messages).filter
        (fun m => m.ref ∈ s.preambles) = [] := by
      rw [List.filter_eq_nil_iff]
      intro m hm
      simpa using hnew m hm
    show ((s.session.messages ++ alloc s.session.nextRef batch.messages).filter
      fun m => m.ref ∈ s.preambles).length ≤ 1
    rw [List.filter_append, hnone, List.append_nil]
    exact h.single
  · intro m hm hrole
    rcases List.mem_append.mp hm with hm | hm
    · exact h.seedsOnly m hm hrole
    · have hmem : m ∈ systems (alloc s.session.nextRef batch.messages) :=
        List.mem_filter.mpr ⟨hm, by simpa using hrole⟩
      rw [hplain] at hmem
      cases hmem
  · have hlast : ∀ ref ∈ s.session.lastPreamble, ref < s.session.nextRef := fun ref href =>
      h.created ref (.inr (h.made ref href))
    show (systems (s.session.append batch.messages).stripped).length ≤ 1
    rw [Session.stripped_append hlast, systems, List.filter_append, ← systems, ← systems, hplain,
      List.append_nil]
    exact h.oneSeed

/-! ## Assembling -/

/-- The list of an assembly that makes a preamble: the preamble, some of the transcript,
and the two in an order from which the preamble is read again. -/
structure Rewritten (ref : Nat) (history messages : List Message) : Prop where
  made : ∃ preamble kept, preamble.ref = ref ∧ messages.Perm (preamble :: kept) ∧
    kept ⊆ history ∧ (systems kept).length ≤ (systems history).length
  last : preambleOf history messages = some ref

/-- A compiled list is the preamble and the verbatim groups. -/
theorem rendered_perm {c : Compiler} {frame : Frame} {history : List Message}
    {layout : Compiler.Layout} (h : Compiler.Rendered c frame history layout) :
    ∃ preamble, preamble.ref = frame.ref ∧ layout.messages.Perm (preamble :: layout.verbatim) := by
  refine ⟨Compiler.preamble frame (c.compressOlderGroups layout.condensed frame.workingState),
    rfl, ?_⟩
  rcases h.cases with hlist | hlist
  · exact .of_eq hlist
  · obtain ⟨seed, rest, second, tail, -, -, hverbatim, -, hlist⟩ := hlist
    rw [hverbatim]
    exact (List.Perm.of_eq hlist).trans (.swap ..)

theorem rewritten_compiled (h : s.Tracks) (c : Compiler) (sources : Sources) :
    Rewritten s.session.preambleRef (s.session.history sources.userMessage)
      (c.assemble sources.userMessage s.session sources.layers).1.messages := by
  have hrendered := Session.assemble_rendered c sources.userMessage sources.layers s.session
  have haccounted := Session.assemble_accounted c sources.userMessage sources.layers s.session
  obtain ⟨preamble, href, hperm⟩ := rendered_perm hrendered
  refine ⟨⟨preamble, _, href, hperm, fun m hm => haccounted.verbatim_subset hm,
    systems_verbatim_le haccounted⟩, preambleOf_rendered hrendered fun m hm => ?_⟩
  exact Nat.ne_of_lt ((h.history_spec sources.userMessage).1 m hm).1

theorem rewritten_plain (h : s.Tracks) (sources : Sources) (hparts : sources.plainParts ≠ []) :
    Rewritten s.session.preambleRef (s.session.history sources.userMessage)
      (s.session.plainMessages sources) := by
  rw [Session.plainMessages, if_neg hparts]
  refine ⟨⟨_, _, rfl, .refl _, List.Subset.refl _, Nat.le_refl _⟩, ?_⟩
  cases hhistory : s.session.history sources.userMessage with
  | nil => simp [preambleOf]
  | cons seed rest =>
      have hne : seed.ref < s.session.preambleRef :=
        ((h.history_spec sources.userMessage).1 seed (by simp [hhistory])).1
      by_cases hrole : seed.role = .system
      · have : seed.ref ≠ s.session.preambleRef := by omega
        simp [preambleOf, hrole, this]
      · simp [preambleOf, hrole]

/-- An assembly that makes a preamble. -/
theorem Tracks.rewritten (h : s.Tracks) {userMessage : String} (next : Session)
    (hmessages : Rewritten s.session.preambleRef (s.session.history userMessage) next.messages)
    (hlast : next.lastPreamble = preambleOf (s.session.history userMessage) next.messages)
    (hnext : next.nextRef = s.session.preambleRef + 1) :
    Tracks { session := next, appended := s.appended,
             preambles := s.session.preambleRef :: s.preambles,
             seeds := s.seedsAfter userMessage } := by
  obtain ⟨hhistory, hseed⟩ := h.history_spec userMessage
  obtain ⟨preamble, kept, href, hperm, hkept, hsystems⟩ := hmessages.made
  rw [hmessages.last] at hlast
  have hbound := s.session.nextRef_le_preambleRef
  have hmem : ∀ m ∈ next.messages, m = preamble ∨ m ∈ kept := fun m hm =>
    List.mem_cons.mp (hperm.subset hm)
  have hother : ∀ m ∈ kept, m.ref ∉ s.session.preambleRef :: s.preambles := by
    intro m hm hpreamble
    obtain ⟨hbelow, hnot, -⟩ := hhistory m (hkept hm)
    rcases List.mem_cons.mp hpreamble with heq | hpreamble
    · omega
    · exact hnot hpreamble
  constructor
  · intro ref hcreated
    show ref < next.nextRef
    rw [hnext]
    rcases hcreated with happended | hpreamble
    · have := h.created ref (.inl happended)
      omega
    · rcases List.mem_cons.mp hpreamble with rfl | hpreamble
      · omega
      · have := h.created ref (.inr hpreamble)
        omega
  · intro m hm
    show m.ref < next.nextRef
    rcases hmem m hm with rfl | hm
    · omega
    · have := (hhistory m (hkept hm)).1
      omega
  · intro ref hpreamble happended
    rcases List.mem_cons.mp hpreamble with rfl | hpreamble
    · have := h.created _ (.inl happended)
      omega
    · exact h.apart ref hpreamble happended
  · intro m hm hpreamble
    rcases hmem m hm with rfl | hm
    · show next.lastPreamble = some m.ref
      rw [hlast, href]
    · exact absurd hpreamble (hother m hm)
  · intro ref hlastRef
    have : next.lastPreamble = some ref := hlastRef
    rw [hlast] at this
    obtain rfl := Option.some.inj this
    exact List.mem_cons_self ..
  · have hnone : kept.filter (fun m => m.ref ∈ s.session.preambleRef :: s.preambles) = [] := by
      rw [List.filter_eq_nil_iff]
      intro m hm
      simpa using hother m hm
    have hlength := (hperm.filter fun m =>
      m.ref ∈ s.session.preambleRef :: s.preambles).length_eq
    show (next.messages.filter _).length ≤ 1
    rw [hlength, List.filter_cons_of_pos (by simp [href]), hnone]
    exact Nat.le_refl 1
  · intro m hm hrole
    rcases hmem m hm with rfl | hm
    · exact .inl (href ▸ List.mem_cons_self ..)
    · exact .inr ((hhistory m (hkept hm)).2.2 hrole)
  · have hstripped : next.stripped.Perm kept := by
      unfold Session.stripped
      rw [hlast]
      refine (hperm.filter _).trans (.of_eq ?_)
      rw [List.filter_cons_of_neg (by simp [href]), List.filter_eq_self]
      intro m hm
      have hne := List.ne_of_not_mem_cons (hother m hm)
      simpa using hne
    have hlength : (systems next.stripped).length = (systems kept).length :=
      (hstripped.filter _).length_eq
    show (systems next.stripped).length ≤ 1
    omega

/-- A second system message in front would be taken for a preamble; a transcript has one
seed at most. -/
theorem preambleOf_history {history : List Message} (h : (systems history).length ≤ 1) :
    preambleOf history history = none := by
  cases history with
  | nil => rfl
  | cons first rest =>
      by_cases hrole : first.role = .system
      · have hrest : systems rest = [] := by
          rw [systems, List.filter_cons_of_pos (by simpa using hrole), List.length_cons] at h
          exact List.eq_nil_of_length_eq_zero (by unfold systems; omega)
        cases rest with
        | nil => simp [preambleOf, hrole]
        | cons second tail =>
            have hsecond : second.role ≠ .system := by
              intro hsystem
              rw [systems, List.filter_cons_of_pos (by simpa using hsystem)] at hrest
              cases hrest
            simp [preambleOf, hrole, hsecond]
      · simp [preambleOf, hrole]

/-- An assembly that makes no preamble writes the transcript back. -/
theorem Tracks.unprefixed (h : s.Tracks) (sources : Sources) (hparts : sources.plainParts = []) :
    Tracks { session := s.session.assemblePlain sources, appended := s.appended,
             preambles := s.preambles, seeds := s.seedsAfter sources.userMessage } := by
  obtain ⟨hhistory, hseed⟩ := h.history_spec sources.userMessage
  have hbound := s.session.nextRef_le_preambleRef
  have hmessages : (s.session.assemblePlain sources).messages =
      s.session.history sources.userMessage := by
    show s.session.plainMessages sources = _
    rw [Session.plainMessages, if_pos hparts]
  have hlast : (s.session.assemblePlain sources).lastPreamble = none := by
    show preambleOf _ (s.session.plainMessages sources) = none
    rw [Session.plainMessages, if_pos hparts]
    exact preambleOf_history hseed
  have hstripped : (s.session.assemblePlain sources).stripped =
      s.session.history sources.userMessage := by
    rw [Session.stripped, hlast]
    exact hmessages
  constructor
  · intro ref hcreated
    have := h.created ref hcreated
    show ref < s.session.preambleRef + 1
    omega
  · intro m hm
    have := (hhistory m (hmessages ▸ hm)).1
    show m.ref < s.session.preambleRef + 1
    omega
  · exact h.apart
  · intro m hm hpreamble
    exact absurd hpreamble (hhistory m (hmessages ▸ hm)).2.1
  · intro ref href
    have : (s.session.assemblePlain sources).lastPreamble = some ref := href
    rw [hlast] at this
    cases this
  · show ((s.session.assemblePlain sources).messages.filter _).length ≤ 1
    rw [hmessages, List.filter_eq_nil_iff.mpr]
    · exact Nat.zero_le 1
    · intro m hm
      simpa using (hhistory m hm).2.1
  · intro m hm hrole
    exact .inr ((hhistory m (hmessages ▸ hm)).2.2 hrole)
  · show (systems (s.session.assemblePlain sources).stripped).length ≤ 1
    rw [hstripped]
    exact hseed

theorem Tracks.assemble (h : s.Tracks) (compiler : Option Compiler) (sources : Sources) :
    (s.assemble compiler sources).Tracks := by
  cases compiler with
  | some c =>
      have hnext := h.rewritten (c.assemble sources.userMessage s.session sources.layers).1
        (rewritten_compiled h c sources) rfl rfl
      exact hnext
  | none =>
      by_cases hparts : sources.plainParts = []
      · have hnext := h.unprefixed sources hparts
        have hmakes : Session.makesPreamble none sources = false := by
          simp [Session.makesPreamble, hparts]
        rw [Watched.assemble, hmakes]
        exact hnext
      · have hnext := h.rewritten (s.session.assemblePlain sources)
          (rewritten_plain h sources hparts) rfl rfl
        have hmakes : Session.makesPreamble none sources = true := by
          simp [Session.makesPreamble, hparts]
        rw [Watched.assemble, hmakes]
        exact hnext

theorem Tracks.failed (h : s.Tracks) (hysteresis : Hysteresis) :
    Tracks { s with session := { s.session with hysteresis } } :=
  ⟨h.created, h.below, h.apart, h.remembered, h.made, h.single, h.seedsOnly, h.oneSeed⟩

end Watched

theorem watchedAssemblies_tracks (compiler : Option Compiler) (start : Option String)
    (steps : List AssemblyStep) : ((watchedAssemblies compiler).run (.start start) steps).Tracks := by
  apply Machine.run_preserves
  · intro s step h
    cases step with
    | append batch => exact Watched.Tracks.append h batch
    | assemble sources => exact Watched.Tracks.assemble h compiler sources
    | failed hysteresis => exact Watched.Tracks.failed h hysteresis
  · exact Watched.start_tracks start

/-- After every run of appends and assemblies the list has one preamble at most, its other
system messages are seeds, and the filter by identity takes no message the loop appended. -/
theorem one_compiled_preamble (compiler : Option Compiler) (start : Option String)
    (steps : List AssemblyStep) :
    let s := (watchedAssemblies compiler).run (.start start) steps
    s.compiledPreambles.length ≤ 1 ∧ s.SeedsOnly ∧ s.FilterKeepsAppended :=
  have h := watchedAssemblies_tracks compiler start steps
  ⟨h.single, h.seedsOnly, h.filterKeepsAppended⟩

end Native
end CodeCub

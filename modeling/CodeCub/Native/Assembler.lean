import CodeCub.Machine.Run
import CodeCub.Native.Accounting

/-!
# Successive native assemblies

The loop owns one list of messages.  Each assembly strips the preamble of the
assembly before it, by identity, compiles what is left and writes the compiled list
back into the loop's list.  The summary of the condensed groups lives in the
preamble only, so it is gone at the next assembly, and the groups behind it are in
no list any more.  `no_loss_iff_keepsAll` says for which runs this loses nothing.
-/

namespace CodeCub
namespace Native

open Python

/-- The loop's transcript, the assembler's `_last_native_preamble`, the next free
object identity and the compiler's hysteresis. -/
structure Session where
  messages : List Message
  lastPreamble : Option Nat := none
  nextRef : Nat
  hysteresis : Hysteresis := {}

namespace Session

def start (userMessage : String) : Session :=
  { messages := initialNativeMessages 0 userMessage, nextRef := 2 }

/-- `native_messages.append`, for a row of new dictionaries. -/
def append (s : Session) (messages : List Message) : Session :=
  { s with messages := s.messages ++ alloc s.nextRef messages
           nextRef := s.nextRef + messages.length }

/-- The transcript without the preamble of the last assembly. -/
def stripped (s : Session) : List Message :=
  match s.lastPreamble with
  | none => s.messages
  | some preamble => s.messages.filter fun message => message.ref != preamble

/-- The transcript handed to the compiler; an empty one is seeded again. -/
def history (s : Session) (userMessage : String) : List Message :=
  if s.stripped.isEmpty then initialNativeMessages s.nextRef userMessage else s.stripped

/-- The identity of the next preamble, after those of a new seed. -/
def preambleRef (s : Session) : Nat := if s.stripped.isEmpty then s.nextRef + 2 else s.nextRef

end Session

/-- The system message that the next assembly will strip: the one behind the
transcript's own first system message, or else the one in front. -/
def preambleOf (history messages : List Message) : Option Nat :=
  let originalSeed := (history.head?.filter fun message => message.role == .system).map Message.ref
  match messages with
  | [] => none
  | first :: rest =>
      if originalSeed = some first.ref then
        (rest.head?.filter fun message => message.role == .system).map Message.ref
      else if first.role = .system then
        some first.ref
      else
        none

namespace Compiler

variable (c : Compiler)

/-- The native branch of `ContextAssembler.assemble`, with the layout compiled. -/
def assemble (userMessage : String) (s : Session) (layers : Layers) : Session × Layout :=
  let compiled := c.compileNative s.hysteresis layers true s.preambleRef (s.history userMessage)
  ({ messages := compiled.layout.messages
     lastPreamble := preambleOf (s.history userMessage) compiled.layout.messages
     nextRef := s.preambleRef + 1
     hysteresis := compiled.hysteresis }, compiled.layout)

end Compiler

/-! ## Runs of appends and assemblies -/

/-- A message group as the loop appends it, before its dictionaries exist. -/
structure Draft where
  messages : List Message
  isBlock : IsBlock messages

/-- The groups appended since the last assembly, and what this one renders around
them. -/
structure Turn where
  groups : List Draft
  layers : Layers

/-- A session with its past: every group ever appended, the groups behind the
summary of the last assembly, and that summary. -/
structure Tracked where
  session : Session
  appended : List (List Message)
  layout : Compiler.Layout
  summaries : List String

namespace Tracked

def start (userMessage : String) : Tracked :=
  { session := .start userMessage
    appended := (initialNativeMessages 0 userMessage).map fun message => [message]
    layout := Compiler.layoutVerbatim (initialNativeMessages 0 userMessage)
    summaries := [] }

/-- The session when the assembly starts. -/
def loaded (s : Tracked) (turn : Turn) : Session :=
  s.session.append (turn.groups.map Draft.messages).flatten

def allAppended (s : Tracked) (turn : Turn) : List (List Message) :=
  s.appended ++ allocBlocks s.session.nextRef (turn.groups.map Draft.messages)

end Tracked

/-- `text` occurs in the message. -/
def Message.Renders (message : Message) (text : String) : Prop :=
  ∃ content, message.content = some content ∧ Contains content text

/-- Every group ever appended stands verbatim in the provider-bound list, or went
into a condensation whose summary this list renders. -/
def Tracked.NoLoss (s : Tracked) : Prop :=
  ∀ block ∈ s.appended, block <:+: s.session.messages ∨
    block ∈ s.layout.condensed.map Group.messages ∧
      ∃ summary ∈ s.summaries, ∃ message ∈ s.session.messages, message.Renders summary

section Assemblies

variable (c : Compiler) (userMessage : String)

def assemblies : Machine Tracked Turn Unit where
  step s turn :=
    let result := c.assemble userMessage (s.loaded turn) turn.layers
    ({ session := result.1
       appended := s.allAppended turn
       layout := result.2
       summaries := c.compressOlderGroups result.2.condensed turn.layers.workingState }, ())

/-- The assembly condenses nothing: the partition and the raw evidence leave no
group behind, and the list they give fits the budget or holds nothing that may be
trimmed. -/
def keepsAll (s : Tracked) (turn : Turn) : Bool :=
  let session := s.loaded turn
  let layout := c.startLayout turn.layers (c.frameOf turn.layers true session.preambleRef)
    (session.history userMessage)
  layout.older.isEmpty && c.fits layout

end Assemblies

/-! ## Reading a compiled list by identity -/

section Identity

variable {c : Compiler} {frame : Frame} {history : List Message}
  {layout : Compiler.Layout}

theorem preambleOf_rendered (h : Compiler.Rendered c frame history layout)
    (hfresh : ∀ m ∈ history, m.ref ≠ frame.ref) :
    preambleOf history layout.messages = some frame.ref := by
  rcases h.cases with h | h
  · rw [h]
    cases history with
    | nil => simp [preambleOf, Compiler.preamble]
    | cons seed rest =>
        have hne := hfresh seed (List.mem_cons_self ..)
        by_cases hrole : seed.role = .system
        · simp [preambleOf, Compiler.preamble, hrole, hne]
        · simp [preambleOf, Compiler.preamble, hrole]
  · obtain ⟨seed, rest, second, tail, rfl, hrole, -, href, hlist⟩ := h
    rw [hlist]
    simp [preambleOf, Compiler.preamble, hrole, href]

theorem filter_rendered (h : Compiler.Rendered c frame history layout)
    (hfresh : ∀ m ∈ layout.verbatim, m.ref ≠ frame.ref) :
    (layout.messages.filter fun message => message.ref != frame.ref) = layout.verbatim := by
  have hkeep : (layout.verbatim.filter fun message => message.ref != frame.ref) =
      layout.verbatim := by
    rw [List.filter_eq_self]
    intro m hm
    simpa using hfresh m hm
  rcases h.cases with h | h
  · rw [h, List.filter_cons_of_neg (by simp [Compiler.preamble]), hkeep]
  · obtain ⟨seed, rest, second, tail, -, -, hverbatim, -, hlist⟩ := h
    rw [hverbatim] at hkeep hfresh ⊢
    have hsecond : (second.ref != frame.ref) = true := by
      simpa using hfresh second (List.mem_cons_self ..)
    have hpreamble : ∀ summaries,
        ((Compiler.preamble frame summaries).ref != frame.ref) = false := by
      simp [Compiler.preamble]
    rw [hlist]
    simp only [List.filter_cons, hsecond, hpreamble, if_true, Bool.false_eq_true, if_false]
      at hkeep ⊢
    exact hkeep

/-- The preamble stands between two groups: in front of all, or behind the first
system message, which has no results. -/
theorem rendered_blocks (h : Compiler.Rendered c frame history layout)
    (hblock : ∀ group ∈ layout.raw ++ layout.recent, IsBlock group.messages)
    (hsame : ∀ a ∈ layout.verbatim, ∀ b ∈ history, a.ref = b.ref → a = b) :
    ∃ front back, (layout.raw ++ layout.recent).map Group.messages = front ++ back ∧
      layout.messages = (front ++ [Compiler.preamble frame
        (c.compressOlderGroups layout.condensed frame.workingState)] :: back).flatten := by
  rcases h.cases with h | h
  · exact ⟨[], _, rfl, h⟩
  · obtain ⟨seed, rest, second, tail, hhistory, hrole, hverbatim, href, hlist⟩ := h
    have hseed : second = seed := by
      apply hsame second _ seed _ href
      · rw [hverbatim]; exact List.mem_cons_self ..
      · rw [hhistory]; exact List.mem_cons_self ..
    cases hgroups : layout.raw ++ layout.recent with
    | nil =>
        rw [Compiler.Layout.verbatim, hgroups] at hverbatim
        cases hverbatim
    | cons first others =>
        rw [Compiler.Layout.verbatim, hgroups, List.flatMap_cons, Group.messages,
          List.cons_append] at hverbatim
        obtain ⟨hmessage, htail⟩ := List.cons.inj hverbatim
        have hresults : first.results = [] := by
          have hfirst := hblock first (by rw [hgroups]; exact List.mem_cons_self ..)
          apply IsBlock.eq_singleton hfirst
          simp [Message.isCallBatch, hmessage, hseed, hrole]
        rw [hresults, List.nil_append] at htail
        refine ⟨[[second]], others.map Group.messages, ?_, ?_⟩
        · simp [Group.messages, hresults, hmessage]
        · rw [hlist, ← htail]
          rfl

end Identity

/-! ## Groups with identities of their own -/

/-- Groups of messages that are all different objects, created before `bound`. -/
structure Fresh (blocks : List (List Message)) (bound : Nat) : Prop where
  isBlock : ∀ b ∈ blocks, IsBlock b
  nodup : (blocks.flatten.map Message.ref).Nodup
  below : ∀ m ∈ blocks.flatten, m.ref < bound

namespace Fresh

variable {blocks : List (List Message)} {bound : Nat}

theorem nodup_alloc (h : Fresh blocks bound) (messages : List Message) :
    ((blocks.flatten ++ alloc bound messages).map Message.ref).Nodup := by
  rw [List.map_append, List.nodup_append]
  refine ⟨h.nodup, nodup_refs_alloc _ _, ?_⟩
  intro a ha b hb heq
  obtain ⟨m, hm, rfl⟩ := List.mem_map.mp ha
  obtain ⟨m', hm', rfl⟩ := List.mem_map.mp hb
  have := h.below m hm
  have := ref_of_mem_alloc hm'
  omega

theorem below_alloc (h : Fresh blocks bound) (messages : List Message) :
    ∀ m ∈ blocks.flatten ++ alloc bound messages, m.ref < bound + messages.length := by
  intro m hm
  rcases List.mem_append.mp hm with hm | hm
  · have := h.below m hm
    omega
  · exact (ref_of_mem_alloc hm).2

theorem append (h : Fresh blocks bound) {drafts : List (List Message)}
    (hdrafts : ∀ b ∈ drafts, IsBlock b) :
    Fresh (blocks ++ allocBlocks bound drafts) (bound + drafts.flatten.length) := by
  refine ⟨?_, ?_, ?_⟩
  · intro b hb
    rcases List.mem_append.mp hb with hb | hb
    · exact h.isBlock b hb
    · exact isBlock_allocBlocks hdrafts b hb
  · rw [List.flatten_append, flatten_allocBlocks]
    exact h.nodup_alloc _
  · rw [List.flatten_append, flatten_allocBlocks]
    exact h.below_alloc _

theorem perm (h : Fresh blocks bound) {blocks' : List (List Message)}
    (hperm : blocks'.Perm blocks) : Fresh blocks' bound := by
  have hflat := hperm.flatten
  exact ⟨fun b hb => h.isBlock b (hperm.subset hb),
    (hflat.map Message.ref).nodup_iff.mpr h.nodup, fun m hm => h.below m (hflat.subset hm)⟩

theorem mono (h : Fresh blocks bound) {bound' : Nat} (hle : bound ≤ bound') :
    Fresh blocks bound' :=
  ⟨h.isBlock, h.nodup, fun m hm => Nat.lt_of_lt_of_le (h.below m hm) hle⟩

theorem left {others : List (List Message)} (h : Fresh (blocks ++ others) bound) :
    Fresh blocks bound := by
  have hnodup := h.nodup
  rw [List.flatten_append, List.map_append, List.nodup_append] at hnodup
  refine ⟨fun b hb => h.isBlock b (List.mem_append_left _ hb), hnodup.1, fun m hm => ?_⟩
  apply h.below
  rw [List.flatten_append]
  exact List.mem_append_left _ hm

theorem eq_of_ref (h : Fresh blocks bound) {a b : Message} (ha : a ∈ blocks.flatten)
    (hb : b ∈ blocks.flatten) (href : a.ref = b.ref) : a = b :=
  List.inj_on_of_nodup_map h.nodup ha hb href

end Fresh

/-! ## One assembly of a row of groups -/

/-- Without the preamble, the session's list is these groups in a row. -/
structure Session.Holds (s : Session) (blocks : List (List Message)) : Prop where
  stripped : s.stripped = blocks.flatten
  fresh : Fresh blocks s.nextRef
  preamble : ∀ p ∈ s.lastPreamble, p < s.nextRef

def seedBlocks (ref : Nat) (userMessage : String) : List (List Message) :=
  (initialNativeMessages ref userMessage).map fun message => [message]

theorem seedBlocks_flatten (ref : Nat) (userMessage : String) :
    (seedBlocks ref userMessage).flatten = initialNativeMessages ref userMessage := rfl

theorem seedBlocks_fresh (ref : Nat) (userMessage : String) :
    Fresh (seedBlocks ref userMessage) (ref + 2) := by
  refine ⟨?_, ?_, ?_⟩
  · intro b hb
    simp only [seedBlocks, initialNativeMessages, alloc, List.map_cons, List.map_nil,
      List.mem_cons, List.not_mem_nil, or_false] at hb
    rcases hb with hb | hb <;> subst hb <;> simp [IsBlock]
  · rw [seedBlocks_flatten]
    exact nodup_refs_alloc _ _
  · intro m hm
    rw [seedBlocks_flatten] at hm
    exact (ref_of_mem_alloc hm).2

namespace Session

/-- The groups the next assembly compiles: those of the session, or a new seed. -/
def sources (s : Session) (userMessage : String) (blocks : List (List Message)) :
    List (List Message) :=
  if blocks.isEmpty then seedBlocks s.nextRef userMessage else blocks

theorem stripped_append {s : Session} (h : ∀ p ∈ s.lastPreamble, p < s.nextRef)
    (messages : List Message) :
    (s.append messages).stripped = s.stripped ++ alloc s.nextRef messages := by
  unfold stripped append
  cases hlast : s.lastPreamble with
  | none => rfl
  | some p =>
      have hp := h p hlast
      dsimp only
      rw [List.filter_append]
      congr 1
      rw [List.filter_eq_self]
      intro m hm
      have := ref_of_mem_alloc hm
      simp only [bne_iff_ne, ne_eq]
      omega

variable {s : Session} {blocks : List (List Message)}

theorem start_holds (userMessage : String) :
    (start userMessage).Holds (seedBlocks 0 userMessage) := by
  refine ⟨rfl, seedBlocks_fresh 0 userMessage, ?_⟩
  intro p hp
  cases hp

theorem Holds.append (h : s.Holds blocks) {drafts : List (List Message)}
    (hdrafts : ∀ b ∈ drafts, IsBlock b) :
    (s.append drafts.flatten).Holds (blocks ++ allocBlocks s.nextRef drafts) := by
  refine ⟨?_, h.fresh.append hdrafts, ?_⟩
  · rw [stripped_append h.preamble, h.stripped, List.flatten_append, flatten_allocBlocks]
  · intro p hp
    exact Nat.lt_of_lt_of_le (h.preamble p hp) (Nat.le_add_right _ _)

/-- A message appended to the last group. -/
theorem Holds.extend {last : List Message} {message : Message} (h : s.Holds (blocks ++ [last]))
    (hblock : IsBlock (last ++ [{ message with ref := s.nextRef }])) :
    (s.append [message]).Holds (blocks ++ [last ++ [{ message with ref := s.nextRef }]]) := by
  have hflat : (blocks ++ [last ++ [{ message with ref := s.nextRef }]]).flatten =
      (blocks ++ [last]).flatten ++ alloc s.nextRef [message] := by
    simp [alloc]
  refine ⟨?_, ⟨?_, ?_, ?_⟩, ?_⟩
  · rw [stripped_append h.preamble, h.stripped, hflat]
  · intro b hb
    rcases List.mem_append.mp hb with hb | hb
    · exact h.fresh.isBlock b (List.mem_append_left _ hb)
    · rw [List.mem_singleton.mp hb]
      exact hblock
  · rw [hflat]
    exact h.fresh.nodup_alloc _
  · rw [hflat]
    exact h.fresh.below_alloc _
  · intro p hp
    exact Nat.lt_of_lt_of_le (h.preamble p hp) (Nat.le_add_right _ _)

theorem Holds.isEmpty_stripped (h : s.Holds blocks) : s.stripped.isEmpty = blocks.isEmpty := by
  rw [h.stripped]
  cases hblocks : blocks with
  | nil => rfl
  | cons block rest =>
      have hne := (h.fresh.isBlock block (by rw [hblocks]; exact List.mem_cons_self ..)).ne_nil
      cases block with
      | nil => exact absurd rfl hne
      | cons message results => rfl

theorem Holds.history (h : s.Holds blocks) (userMessage : String) :
    s.history userMessage = (s.sources userMessage blocks).flatten ∧
      Fresh (s.sources userMessage blocks) s.preambleRef := by
  unfold Session.history sources preambleRef
  rw [h.isEmpty_stripped]
  by_cases hempty : blocks.isEmpty = true
  · rw [if_pos hempty, if_pos hempty, if_pos hempty]
    exact ⟨seedBlocks_flatten _ _, seedBlocks_fresh _ _⟩
  · rw [if_neg hempty, if_neg hempty, if_neg hempty]
    exact ⟨h.stripped, h.fresh⟩

theorem nextRef_le_preambleRef (s : Session) : s.nextRef ≤ s.preambleRef := by
  unfold preambleRef
  split <;> omega

section Assembled

variable (c : Compiler) (userMessage : String) (layers : Layers)

theorem assemble_accounted (s : Session) :
    Compiler.Accounted (groupNativeMessages (s.history userMessage))
      (c.assemble userMessage s layers).2 :=
  c.compileNative_accounted ..

theorem assemble_rendered (s : Session) :
    Compiler.Rendered c (c.frameOf layers true s.preambleRef) (s.history userMessage)
      (c.assemble userMessage s layers).2 :=
  c.compileNative_rendered ..

theorem Holds.dealt (h : s.Holds blocks) :
    (((c.assemble userMessage s layers).2.raw ++ (c.assemble userMessage s layers).2.recent ++
      (c.assemble userMessage s layers).2.older).map Group.messages).Perm
        (s.sources userMessage blocks) := by
  obtain ⟨hhistory, hfresh⟩ := h.history userMessage
  refine (assemble_accounted c userMessage layers s).dealt.trans ?_
  rw [hhistory, groupNativeMessages_blocks _ hfresh.isBlock]

/-- The new preamble is an object of its own. -/
theorem Holds.ref_ne (h : s.Holds blocks) {m : Message} (hm : m ∈ s.history userMessage) :
    m.ref ≠ s.preambleRef := by
  obtain ⟨hhistory, hfresh⟩ := h.history userMessage
  rw [hhistory] at hm
  have := hfresh.below m hm
  omega

theorem Holds.assemble_blocks (h : s.Holds blocks) :
    ∃ front pre back, ((c.assemble userMessage s layers).2.raw ++
        (c.assemble userMessage s layers).2.recent).map Group.messages = front ++ back ∧
      pre.role = .system ∧ pre.toolCalls = [] ∧
      (c.assemble userMessage s layers).1.messages = (front ++ [pre] :: back).flatten := by
  obtain ⟨hhistory, hfresh⟩ := h.history userMessage
  have hsame : ∀ a ∈ (c.assemble userMessage s layers).2.verbatim,
      ∀ b ∈ s.history userMessage, a.ref = b.ref → a = b := by
    intro a ha b hb hab
    have ha' := (assemble_accounted c userMessage layers s).verbatim_subset ha
    rw [hhistory] at ha' hb
    exact hfresh.eq_of_ref ha' hb hab
  have hblock : ∀ group ∈ (c.assemble userMessage s layers).2.raw ++
      (c.assemble userMessage s layers).2.recent, IsBlock group.messages := by
    intro group hgroup
    apply hfresh.isBlock
    apply (h.dealt c userMessage layers).subset
    exact List.mem_map_of_mem (List.mem_append_left _ hgroup)
  obtain ⟨front, back, hgroups, hlist⟩ :=
    rendered_blocks (assemble_rendered c userMessage layers s) hblock hsame
  exact ⟨front, _, back, hgroups, rfl, rfl, hlist⟩

theorem Holds.verbatim_infix (h : s.Holds blocks) :
    ∀ group ∈ (c.assemble userMessage s layers).2.raw ++ (c.assemble userMessage s layers).2.recent,
      group.messages <:+: (c.assemble userMessage s layers).1.messages := by
  intro group hgroup
  obtain ⟨front, pre, back, hgroups, -, -, hlist⟩ := h.assemble_blocks c userMessage layers
  have hmem : group.messages ∈ front ++ back := hgroups ▸ List.mem_map_of_mem hgroup
  rw [hlist]
  apply List.infix_of_mem_flatten
  rcases List.mem_append.mp hmem with hmem | hmem
  · exact List.mem_append_left _ hmem
  · exact List.mem_append_right _ (List.mem_cons_of_mem _ hmem)

/-- The assembled list holds the verbatim groups, behind a preamble that the next
assembly will know. -/
theorem Holds.assembled (h : s.Holds blocks) :
    (c.assemble userMessage s layers).1.Holds
      (((c.assemble userMessage s layers).2.raw ++
        (c.assemble userMessage s layers).2.recent).map Group.messages) := by
  have hlast : (c.assemble userMessage s layers).1.lastPreamble = some s.preambleRef :=
    preambleOf_rendered (assemble_rendered c userMessage layers s) fun _ hm => h.ref_ne _ hm
  refine ⟨?_, ?_, ?_⟩
  · rw [Session.stripped, hlast]
    exact filter_rendered (assemble_rendered c userMessage layers s) fun m hm =>
      h.ref_ne _ ((assemble_accounted c userMessage layers s).verbatim_subset hm)
  · have hfresh := (h.history userMessage).2.perm (h.dealt c userMessage layers)
    rw [List.map_append] at hfresh
    exact hfresh.left.mono (Nat.le_succ _)
  · intro p hp
    rw [hlast, Option.mem_some_iff] at hp
    show p < s.preambleRef + 1
    omega

theorem assemble_summary (s : Session)
    (h : (c.assemble userMessage s layers).2.condensed ≠ []) :
    ∃ summary ∈ c.compressOlderGroups (c.assemble userMessage s layers).2.condensed
        layers.workingState,
      ∃ message ∈ (c.assemble userMessage s layers).1.messages, message.Renders summary := by
  obtain ⟨text, hcontent, hcontains⟩ := Compiler.summary_rendered (c := c)
    (c.frameOf layers true s.preambleRef) h
  refine ⟨_, ?_, _, ?_, text, hcontent, hcontains⟩
  · have hne : (c.assemble userMessage s layers).2.condensed.isEmpty = false := by simpa using h
    simp [Compiler.compressOlderGroups, hne, Compiler.frameOf]
  · show _ ∈ (c.assemble userMessage s layers).2.messages
    rcases (assemble_rendered c userMessage layers s).cases with hlist | hlist
    · rw [hlist]
      exact List.mem_cons_self ..
    · obtain ⟨seed, rest, second, tail, -, -, -, -, hlist⟩ := hlist
      rw [hlist]
      exact List.mem_cons_of_mem _ (List.mem_cons_self ..)

end Assembled

end Session

/-! ## Whole transcripts -/

/-- Without its preamble, the transcript is all that was ever appended. -/
structure Tracked.Whole (s : Tracked) : Prop where
  holds : ∃ blocks : List (List Message), blocks.Perm s.appended ∧ s.session.Holds blocks
  nonempty : s.appended ≠ []

/-- What an assembly of a whole transcript establishes. -/
structure Tracked.Settled (s : Tracked) : Prop where
  holds : s.session.Holds ((s.layout.raw ++ s.layout.recent).map Group.messages)
  fresh : Fresh s.appended s.session.nextRef
  nonempty : s.appended ≠ []
  dealt : ((s.layout.raw ++ s.layout.recent ++ s.layout.older).map Group.messages).Perm s.appended
  condensed : (s.layout.condensed.map Group.messages).Perm (s.layout.older.map Group.messages)
  verbatim : ∀ group ∈ s.layout.raw ++ s.layout.recent, group.messages <:+: s.session.messages
  rendered : s.layout.condensed ≠ [] →
    ∃ summary ∈ s.summaries, ∃ message ∈ s.session.messages, message.Renders summary

namespace Tracked

variable {c : Compiler} {userMessage : String}

theorem start_whole : (start userMessage).Whole :=
  ⟨⟨seedBlocks 0 userMessage, .refl _, Session.start_holds userMessage⟩, List.cons_ne_nil _ _⟩

theorem loaded_holds {s : Tracked} {blocks : List (List Message)} (h : s.session.Holds blocks)
    (turn : Turn) :
    (s.loaded turn).Holds
      (blocks ++ allocBlocks s.session.nextRef (turn.groups.map Draft.messages)) := by
  apply h.append
  intro b hb
  obtain ⟨draft, -, rfl⟩ := List.mem_map.mp hb
  exact draft.isBlock

/-- One assembly of a whole transcript. -/
theorem Whole.settled {s : Tracked} (h : s.Whole) (turn : Turn) :
    ((assemblies c userMessage).next s turn).Settled := by
  obtain ⟨blocks, hperm, hholds⟩ := h.holds
  have hload := loaded_holds hholds turn
  have happended : (blocks ++ allocBlocks s.session.nextRef
      (turn.groups.map Draft.messages)).Perm (s.allAppended turn) := hperm.append_right _
  have hnonempty : blocks ≠ [] := by
    intro hnil
    rw [hnil] at hperm
    exact h.nonempty hperm.symm.eq_nil
  have hsources : (s.loaded turn).sources userMessage (blocks ++ allocBlocks s.session.nextRef
      (turn.groups.map Draft.messages)) = blocks ++ allocBlocks s.session.nextRef
        (turn.groups.map Draft.messages) := by
    simp [Session.sources, hnonempty]
  have hdealt := hload.dealt c userMessage turn.layers
  rw [hsources] at hdealt
  refine ⟨hload.assembled c userMessage turn.layers, ?_, ?_, hdealt.trans happended,
    (Session.assemble_accounted c userMessage turn.layers (s.loaded turn)).condensed,
    hload.verbatim_infix c userMessage turn.layers,
    Session.assemble_summary c userMessage turn.layers (s.loaded turn)⟩
  · apply (hload.fresh.perm happended.symm).mono
    exact Nat.le_succ_of_le (Session.nextRef_le_preambleRef _)
  · exact List.append_ne_nil_of_left_ne_nil h.nonempty _

theorem Settled.noLoss {s : Tracked} (h : s.Settled) : s.NoLoss := by
  intro block hblock
  obtain ⟨group, hgroup, rfl⟩ := List.mem_map.mp (h.dealt.symm.subset hblock)
  rcases List.mem_append.mp hgroup with hgroup | hgroup
  · exact .inl (h.verbatim group hgroup)
  · have hmem := h.condensed.symm.subset (List.mem_map_of_mem hgroup)
    refine .inr ⟨hmem, h.rendered ?_⟩
    intro hnil
    rw [hnil] at hmem
    cases hmem

theorem Settled.whole {s : Tracked} (h : s.Settled) (holder : s.layout.older = []) : s.Whole := by
  refine ⟨⟨(s.layout.raw ++ s.layout.recent).map Group.messages, ?_, h.holds⟩, h.nonempty⟩
  have := h.dealt
  rwa [holder, List.append_nil] at this

/-- A group behind the summary is in no later assembly: it left the transcript, and
the summary left with the preamble. -/
theorem Settled.loss {s : Tracked} (h : s.Settled) (holder : s.layout.older ≠ []) (turn : Turn) :
    ¬ ((assemblies c userMessage).next s turn).NoLoss := by
  obtain ⟨group, hgroup⟩ := List.exists_mem_of_ne_nil _ holder
  have hdealt : Fresh ((s.layout.raw ++ s.layout.recent).map Group.messages ++
      s.layout.older.map Group.messages) s.session.nextRef := by
    have := h.fresh.perm h.dealt
    rwa [List.map_append] at this
  have holderMem : group.message ∈ (s.layout.older.map Group.messages).flatten :=
    List.mem_flatten.mpr ⟨group.messages, List.mem_map_of_mem hgroup, List.mem_cons_self ..⟩
  have hbelow : group.message.ref < s.session.nextRef := by
    apply hdealt.below
    rw [List.flatten_append]
    exact List.mem_append_right _ holderMem
  have hgone : ∀ m ∈ (s.loaded turn).history userMessage, m.ref ≠ group.message.ref := by
    intro m hm heq
    unfold Session.history at hm
    split at hm
    · have := (ref_of_mem_alloc hm).1
      simp only [Tracked.loaded, Session.append] at this
      omega
    · rw [Tracked.loaded, Session.stripped_append h.holds.preamble, h.holds.stripped] at hm
      rcases List.mem_append.mp hm with hm | hm
      · have hnodup := hdealt.nodup
        rw [List.flatten_append, List.map_append, List.nodup_append] at hnodup
        exact hnodup.2.2 _ (List.mem_map_of_mem hm) _ (List.mem_map_of_mem holderMem) heq
      · have := (ref_of_mem_alloc hm).1
        omega
  have hpreamble : s.session.nextRef ≤ (s.loaded turn).preambleRef := by
    have hload : s.session.nextRef ≤ (s.loaded turn).nextRef := Nat.le_add_right _ _
    exact Nat.le_trans hload (Session.nextRef_le_preambleRef _)
  intro hno
  have hblock : group.messages ∈ s.allAppended turn := by
    apply List.mem_append_left
    apply h.dealt.subset
    exact List.mem_map_of_mem (List.mem_append_right _ hgroup)
  rcases hno group.messages hblock with hin | ⟨hin, -⟩
  · rcases Compiler.mem_compileNative (hin.subset (List.mem_cons_self ..)) with href | hm
    · omega
    · exact hgone _ hm rfl
  · have hcondensed := (Session.assemble_accounted c userMessage turn.layers
      (s.loaded turn)).condensed_subset hin
    exact hgone _ (hcondensed (List.mem_cons_self ..)) rfl

theorem older_eq_nil_iff {s : Tracked} {turn : Turn} :
    ((assemblies c userMessage).next s turn).layout.older = [] ↔
      keepsAll c userMessage s turn = true := by
  show (c.compileNative (s.loaded turn).hysteresis turn.layers true (s.loaded turn).preambleRef
    ((s.loaded turn).history userMessage)).layout.older = [] ↔ _
  rw [Compiler.compileNative_layout, Compiler.enforceNativeBudget_older_eq_nil]
  simp [keepsAll]

/-- From a whole transcript, no assembly of the run loses a group exactly when every
assembly that another one follows condenses nothing. -/
theorem Whole.noLoss_iff {s : Tracked} (h : s.Whole) (turns : List Turn) :
    (∀ before, before <+: turns → before ≠ [] →
        ((assemblies c userMessage).run s before).NoLoss) ↔
      (assemblies c userMessage).Along (fun s turn => keepsAll c userMessage s turn = true) s
        turns.dropLast := by
  induction turns generalizing s with
  | nil => simp [Machine.Along]
  | cons turn rest ih =>
      have hsettled : ((assemblies c userMessage).next s turn).Settled := h.settled turn
      cases rest with
      | nil =>
          simp only [List.dropLast_singleton, Machine.Along, iff_true]
          intro before hbefore hne
          rcases List.prefix_cons_iff.mp hbefore with hnil | ⟨tail, rfl, htail⟩
          · exact absurd hnil hne
          · rw [List.prefix_nil] at htail
            subst htail
            exact hsettled.noLoss
      | cons second more =>
          have hsplit : (∀ before, before <+: turn :: second :: more → before ≠ [] →
              ((assemblies c userMessage).run s before).NoLoss) ↔
              ∀ before, before <+: second :: more → before ≠ [] →
                ((assemblies c userMessage).run ((assemblies c userMessage).next s turn)
                  before).NoLoss := by
            constructor
            · intro hall before hbefore hne
              exact hall (turn :: before) (List.cons_prefix_cons.mpr ⟨rfl, hbefore⟩) (by simp)
            · intro hall before hbefore hne
              rcases List.prefix_cons_iff.mp hbefore with hnil | ⟨tail, rfl, htail⟩
              · exact absurd hnil hne
              · by_cases htailNil : tail = []
                · subst htailNil
                  exact hsettled.noLoss
                · exact hall tail htail htailNil
          rw [List.dropLast_cons_cons, hsplit]
          by_cases hkeep : keepsAll c userMessage s turn = true
          · simp only [Machine.Along, hkeep, true_and]
            exact ih (hsettled.whole (older_eq_nil_iff.mpr hkeep))
          · have holder : ((assemblies c userMessage).next s turn).layout.older ≠ [] :=
              fun hnil => hkeep (older_eq_nil_iff.mp hnil)
            constructor
            · intro hall
              have hsecond := hall [second] (by simp) (by simp)
              exact absurd hsecond (hsettled.loss holder second)
            · intro hall
              exact absurd hall.1 hkeep

theorem start_noLoss : (start userMessage).NoLoss := by
  intro block hblock
  left
  simp only [start, initialNativeMessages, alloc, List.map_cons, List.map_nil, List.mem_cons,
    List.not_mem_nil, or_false] at hblock
  rcases hblock with hblock | hblock
  · subst hblock
    exact (List.prefix_append [_] _).isInfix
  · subst hblock
    exact (List.suffix_append [_] _).isInfix

/-- Nothing is silently lost in any state of a run exactly when no assembly but the
last condenses a group. -/
theorem no_loss_iff_keepsAll (c : Compiler) (userMessage : String) (turns : List Turn) :
    (∀ before, before <+: turns →
        ((assemblies c userMessage).run (start userMessage) before).NoLoss) ↔
      (assemblies c userMessage).Along (fun s turn => keepsAll c userMessage s turn = true)
        (start userMessage) turns.dropLast := by
  rw [← start_whole.noLoss_iff]
  constructor
  · intro h before hbefore _
    exact h before hbefore
  · intro h before hbefore
    by_cases hnil : before = []
    · subst hnil
      exact start_noLoss
    · exact h before hbefore hnil

end Tracked

/-! ## A run of three reads -/

/-- One `read_file` call and its result of `size` characters. -/
def readGroup (id path : String) (size : Nat) : Draft where
  messages :=
    [{ ref := 0, role := .assistant, content := none,
       toolCalls := [⟨id, "read_file", "\x7b\"path\": \"" ++ path ++ "\"\x7d"⟩] },
     { ref := 0, role := .tool, content := some (String.ofList (List.replicate size 'x')),
       toolCallId := id }]
  isBlock := by simp [IsBlock, Message.callIds, Message.isCallBatch]

/-- The lengths of the JSON texts of the seed for `Fix the parser.` and of the three
groups read after it; a later message counts by its content. -/
def readTokens (message : Message) : Nat :=
  [247, 146, 155, 352, 156, 352, 161, 352].getD message.ref
    ((message.content.getD "").length + 31)

/-- The default configuration over a usable budget of 2000, without a code index; the
summary is the deterministic one of the first read. -/
def readCompiler : Compiler where
  budget := { usableInputBudget := 2000 }
  tokens := readTokens
  historySpanFingerprint := fun _ => ""
  signature := fun _ => ""
  scoreRawEvidence := fun _ _ _ => (0, false)
  condenser :=
    { condense := fun _ _ =>
        "Earlier Investigation:\n[Tool Evidence]\n- Findings:\n- * investigated lexer.py"
      nonblank := fun _ _ => strip_ne_empty_iff.mpr ⟨'E', by simp, by decide⟩ }
  buildRepoMap := fun _ _ => []

def readTurn : Turn where
  groups := [readGroup "call_1" "lexer.py" 300, readGroup "call_2" "parser.py" 300,
    readGroup "call_3" "test_parser.py" 300]
  layers := { userMessage := "Fix the parser." }

/-- The three reads pass the watermark, so the first of them is condensed, and the
assembly after that has neither the read nor its summary. -/
theorem readRun_loses_group :
    ¬ ∀ before, before <+: [readTurn, { groups := [], layers := readTurn.layers }] →
      ((assemblies readCompiler "Fix the parser.").run (.start "Fix the parser.")
        before).NoLoss := by
  intro h
  have hcondensed : keepsAll readCompiler "Fix the parser." (.start "Fix the parser.") readTurn =
      false := by
    decide +kernel
  refine (Tracked.start_whole.settled readTurn).loss ?_ _ (h _ List.prefix_rfl)
  intro hnil
  rw [Tracked.older_eq_nil_iff.mp hnil] at hcondensed
  cases hcondensed

end Native
end CodeCub
